import Claimward.Library.Fields
import Claimward.Tenant.Tenants

/-!
# The tenant form of the admin pages

`TenantForm.svelte`: each list of a tenant is shown joined with `, `, and what
is in the field is split at the commas, trimmed and rid of empty entries when
the form is sent. Sending it unchanged is an `Update` with the lists read back.

An entry with a comma comes back in pieces. The pages trim as JavaScript does
and the server as Go does; the two differ in two characters.
-/

namespace Claimward.AdminUi

open GoText

/-- The white space and the line terminators of JavaScript: U+FEFF is among them
and U+0085 is not, the other way round than in Go. -/
def jsSpace (c : Char) : Bool := c.toNat = 0xFEFF || (isSpace c && c.toNat ≠ 0x85)

def jsTrim (s : String) : String := String.ofList (trimChars jsSpace s.toList)

/-- How a list is shown. -/
def join (xs : List String) : String := ", ".intercalate xs

/-- How a field is read: cut at the commas, trimmed, without the empty pieces. -/
def list (s : String) : List String := fields jsSpace ',' s

/-- What the form sends for a tenant when nothing has been changed in it. The
serial is not sent. -/
def submit (t : Tenant) : Tenant where
  id := jsTrim t.id
  name := jsTrim t.name
  domains := list (join t.domains)
  groups := list (join t.groups)
  idps := list (join t.idps)
  allowedIPs := list (join t.allowedIPs)
  dns := list (join t.dns)
  serial := 0

section Entries

variable {e s : String}

/-- What is read from a field where a list is shown is what is read from its
entries. -/
theorem list_join (xs : List String) : list (join xs) = xs.flatMap list := by
  induction xs with
  | nil => rfl
  | cons x rest ih =>
      cases rest with
      | nil => simp [join]
      | cons y ys =>
          have htext : join (x :: y :: ys) =
              x ++ String.singleton ',' ++ (String.singleton ' ' ++ join (y :: ys)) := by
            apply String.toList_inj.mp
            simp [join]
          calc list (join (x :: y :: ys))
              = list x ++ list (String.singleton ' ' ++ join (y :: ys)) := by
                rw [htext]
                exact fields_append _ _
            _ = list x ++ list (join (y :: ys)) :=
                congrArg _ (fields_blank_append (by decide) (by decide) _)
            _ = (x :: y :: ys).flatMap list := by rw [ih, ← List.flatMap_cons]

theorem list_of_no_comma (h : ',' ∉ e.toList) :
    list e = if jsTrim e = "" then [] else [jsTrim e] := by
  rw [list, fields_whole h, jsTrim]
  simp

/-- Nothing that is read from a field has a comma. -/
theorem notMem_of_mem_list (h : e ∈ list s) : ',' ∉ e.toList := (entry_of_mem_fields h).whole

/-- An entry that the form sends back as the server reads it. -/
def Survives (e : String) : Prop := ',' ∉ e.toList ∧ trimSpace (jsTrim e) = trimSpace e

instance : Decidable (Survives e) := inferInstanceAs (Decidable (_ ∧ _))

/-- A test of the trimmed entries comes out the same, unless it is for blank
entries and there are any. -/
theorem any_list_join {P : String → Bool} {xs : List String} (h : ∀ e ∈ xs, Survives e)
    (hblank : P "" = false ∨ ∀ e ∈ xs, jsTrim e ≠ "") :
    ((list (join xs)).any fun e => P (trimSpace e)) = xs.any fun e => P (trimSpace e) := by
  rw [list_join, List.any_flatMap, Bool.eq_iff_iff, List.any_eq_true, List.any_eq_true]
  refine exists_congr fun e => and_congr_right fun he => Bool.eq_iff_iff.mp ?_
  obtain ⟨hcomma, htrim⟩ := h e he
  rw [list_of_no_comma hcomma]
  by_cases hempty : jsTrim e = ""
  · rcases hblank with hfalse | hnone
    · rw [if_pos hempty, ← htrim, hempty, show trimSpace "" = "" by decide, hfalse]
      rfl
    · exact absurd hempty (hnone e he)
  · rw [if_neg hempty, List.any_cons, List.any_nil, Bool.or_false, htrim]

end Entries

/-- A tenant whose lists all survive the form, with no blank entry among its
domains. A blank domain matches an address that ends in `@`, and is not sent. -/
structure SurvivesForm (t : Tenant) : Prop where
  domains : ∀ e ∈ t.domains, Survives e ∧ jsTrim e ≠ ""
  groups : ∀ e ∈ t.groups, Survives e
  idps : ∀ e ∈ t.idps, Survives e

/-- The tenant that the store holds after the unchanged form has been sent. -/
def saved (t : Tenant) : Tenant := { submit t with id := t.id, serial := t.serial + 1 }

theorem update_submit {s : TenantStore} {id : String} {t : Tenant}
    (hstored : s.tenants.lookup id = some t) :
    s.update id (submit t) = (.ok (saved t), ⟨s.tenants.insert id (saved t)⟩) := by
  simp only [TenantStore.update, hstored]
  rfl

/-- A comma is not white space, so trimming leaves it. -/
theorem comma_mem_trimSpace {e : String} (hcomma : ',' ∈ e.toList) :
    ',' ∈ (trimSpace e).toList := by
  rw [trimSpace, String.toList_ofList]
  exact mem_trimChars hcomma (by decide)

/-- No entry that comes back is one with a comma. -/
theorem trimSpace_ne_of_comma {xs : List String} {e e' : String} (hcomma : ',' ∈ e.toList)
    (h : e' ∈ list (join xs)) : trimSpace e' ≠ trimSpace e := by
  intro heq
  have hkept := comma_mem_trimSpace hcomma
  rw [← heq, trimSpace, String.toList_ofList] at hkept
  exact notMem_of_mem_list h (mem_of_mem_trimChars hkept)

theorem trimSpace_ne_empty_of_comma {e : String} (hcomma : ',' ∈ e.toList) :
    trimSpace e ≠ "" := by
  intro heq
  have hkept := comma_mem_trimSpace hcomma
  simp [heq] at hkept

section Members

variable [CaseTables] {t : Tenant} {m : Member}

theorem hasDomain_saved (hs : SurvivesForm t) (m : Member) :
    (saved t).hasDomain m = t.hasDomain m := by
  unfold Tenant.hasDomain
  cases afterLast '@' m.email with
  | none => rfl
  | some domain =>
      exact congrArg (m.emailVerified && ·) (any_list_join (P := fun d => equalFold d domain)
        (fun e he => (hs.domains e he).1) (.inr fun e he => (hs.domains e he).2))

theorem has_saved (hs : SurvivesForm t) (m : Member) : (saved t).has m = t.has m := by
  have hgroups : ((saved t).groups.any fun g => m.groups.any fun mg =>
        trimSpace g ≠ "" && trimSpace g = mg) =
      t.groups.any fun g => m.groups.any fun mg => trimSpace g ≠ "" && trimSpace g = mg :=
    any_list_join (P := fun g => m.groups.any fun mg => g ≠ "" && g = mg) hs.groups
      (.inl (by simp))
  have hidps : (m.idp ≠ "" && (saved t).idps.any fun idp => trimSpace idp = m.idp) =
      (m.idp ≠ "" && t.idps.any fun idp => trimSpace idp = m.idp) := by
    by_cases hidp : m.idp = ""
    · simp [hidp]
    · exact congrArg (_ && ·) (any_list_join (P := fun idp => idp = m.idp) hs.idps
        (.inl (by simpa using Ne.symm hidp)))
  rw [Tenant.has, Tenant.has, hasDomain_saved hs, hgroups, hidps]

/-- The members of a group with a comma are lost. -/
theorem group_lost {e : String} (he : e ∈ t.groups) (hcomma : ',' ∈ e.toList) :
    ∃ m, t.has m = true ∧ (saved t).has m = false := by
  have hne := trimSpace_ne_empty_of_comma hcomma
  refine ⟨⟨"", false, [trimSpace e], ""⟩, ?_, ?_⟩
  · simp only [Tenant.has, Tenant.hasDomain, Bool.false_and, Bool.false_or, ne_eq, not_true,
      decide_false, Bool.or_false, List.any_cons, List.any_nil, List.any_eq_true]
    exact ⟨e, he, by simp [hne]⟩
  · simp only [Tenant.has, Tenant.hasDomain, Bool.false_and, Bool.false_or, ne_eq, not_true,
      decide_false, Bool.or_false, List.any_cons, List.any_nil, List.any_eq_false]
    intro e' he'
    have hother := trimSpace_ne_of_comma hcomma he'
    simp [hother]

/-- The people of an institution with a comma are lost. -/
theorem idp_lost {e : String} (he : e ∈ t.idps) (hcomma : ',' ∈ e.toList) :
    ∃ m, t.has m = true ∧ (saved t).has m = false := by
  have hne := trimSpace_ne_empty_of_comma hcomma
  refine ⟨⟨"", false, [], trimSpace e⟩, ?_, ?_⟩
  · simp only [Tenant.has, Tenant.hasDomain, Bool.false_and, List.any_nil, Bool.or_eq_true,
      Bool.and_eq_true, List.any_eq_true, decide_eq_true_eq]
    exact .inr ⟨hne, e, he, rfl⟩
  · have hgroups : ((saved t).groups.any fun _ => false) = false := by simp
    simp only [Tenant.has, Tenant.hasDomain, Bool.false_and, List.any_nil, hgroups, Bool.false_or,
      Bool.and_eq_false_iff, List.any_eq_false, decide_eq_true_eq]
    exact .inr fun e' he' => trimSpace_ne_of_comma hcomma he'

/-- The people of a domain with a comma are lost, if it can be the domain of an
address. -/
theorem domain_lost {e : String} (hfold : FoldsAlone ',') (he : e ∈ t.domains)
    (hcomma : ',' ∈ e.toList) (hat : '@' ∉ e.toList) :
    ∃ m, t.has m = true ∧ (saved t).has m = false := by
  have hdomain :
      afterLast '@' ("a" ++ String.singleton '@' ++ trimSpace e) = some (trimSpace e) := by
    refine afterLast_append "a" fun hmem => hat ?_
    rw [trimSpace, String.toList_ofList] at hmem
    exact mem_of_mem_trimChars hmem
  have hself : equalFold (trimSpace e) (trimSpace e) = true := decide_eq_true rfl
  refine ⟨⟨"a" ++ String.singleton '@' ++ trimSpace e, true, [], ""⟩, ?_, ?_⟩
  · simp only [Tenant.has, Tenant.hasDomain, hdomain, Bool.true_and, Bool.or_eq_true,
      List.any_eq_true]
    exact .inl (.inl ⟨e, he, hself⟩)
  · simp only [Tenant.has, Tenant.hasDomain, hdomain, Bool.true_and, Bool.or_eq_false_iff,
      List.any_eq_false, ne_eq, not_true, decide_false, Bool.false_and, List.any_nil,
      Bool.false_eq_true, not_false_iff, implies_true, and_true]
    intro e' he'
    refine Bool.not_eq_true _ ▸ equalFold_of_foldsAlone hfold ?_ (comma_mem_trimSpace hcomma)
    intro hmem
    rw [trimSpace, String.toList_ofList] at hmem
    exact notMem_of_mem_list he' (mem_of_mem_trimChars hmem)

/-- Opening a tenant that the store holds and saving it unchanged: the update
succeeds; if the lists of the tenant survive the form, everybody belongs to the
tenant who did before and nobody else; if a group or an institution has a comma,
somebody who belonged to the tenant no longer does, and so for a domain with a comma
and without an `@`, where the comma folds like no other character. -/
theorem unchanged_save_keeps_members {s : TenantStore} {id : String}
    (hstored : s.tenants.lookup id = some t) :
    ∃ t' s', s.update id (submit t) = (.ok t', s') ∧ s'.tenants.lookup id = some t' ∧
      (SurvivesForm t → ∀ m, t'.has m = t.has m) ∧
      ((∃ e, (e ∈ t.groups ∨ e ∈ t.idps) ∧ ',' ∈ e.toList) →
        ∃ m, t.has m = true ∧ t'.has m = false) ∧
      (FoldsAlone ',' → (∃ e ∈ t.domains, ',' ∈ e.toList ∧ '@' ∉ e.toList) →
        ∃ m, t.has m = true ∧ t'.has m = false) := by
  refine ⟨saved t, _, update_submit hstored, AList.lookup_insert _, has_saved, ?_, ?_⟩
  · rintro ⟨e, he | he, hcomma⟩
    · exact group_lost he hcomma
    · exact idp_lost he hcomma
  · rintro hfold ⟨e, he, hcomma, hat⟩
    exact domain_lost hfold he hcomma hat

end Members

namespace Sample

/-- A tenant with an LDAP group. -/
def ldap : Tenant := ⟨"lab", "Lab", [], ["cn=vpn,dc=example"], [], [], [], 1⟩

def plain : Tenant := ⟨"lab", "Lab", ["univ.example"], ["vpn", " staff "], ["urn:idp"], [], [], 1⟩

def holding (t : Tenant) : TenantStore := ⟨AList.insert t.id t ∅⟩

end Sample

/-- Saving it unchanged takes everybody in the group out of the tenant. -/
theorem ldap_group_lost :
    let _ : GoTables := asciiTables
    let m : Member := ⟨"", false, ["cn=vpn,dc=example"], ""⟩
    Sample.ldap.has m = true ∧
      ∃ t' s', (Sample.holding Sample.ldap).update "lab" (submit Sample.ldap) = (.ok t', s') ∧
        t'.groups = ["cn=vpn", "dc=example"] ∧ t'.has m = false := by
  refine ⟨by decide +kernel, _, _, rfl, by decide +kernel, by decide +kernel⟩

theorem plain_lists_kept :
    let _ : GoTables := asciiTables
    ∃ t' s', (Sample.holding Sample.plain).update "lab" (submit Sample.plain) = (.ok t', s') ∧
      ∀ m, t'.has m = Sample.plain.has m := by
  intro _
  have hstored : (Sample.holding Sample.plain).tenants.lookup "lab" = some Sample.plain := by
    decide +kernel
  obtain ⟨t', s', hupdate, -, hkept, -⟩ := unchanged_save_keeps_members hstored
  exact ⟨t', s', hupdate,
    hkept ⟨by decide +kernel, by decide +kernel, by decide +kernel⟩⟩

end Claimward.AdminUi
