import Claimward.Tenant.Tenants

/-!
# The IDs of tenants

`slug` makes an ID of any text: lower case, letters and digits and hyphens only,
no hyphen at an end. An ID is a text that `slug` leaves alone, so IDs given by an
admin, taken from a name, or read from a URL meet in one set of keys.
-/

namespace Claimward

open GoText

/-- The characters of an ID. -/
def IDChar (c : Char) : Prop := ('a' ≤ c ∧ c ≤ 'z') ∨ ('0' ≤ c ∧ c ≤ '9') ∨ c = '-'

instance (c : Char) : Decidable (IDChar c) := inferInstanceAs (Decidable (_ ∨ _))

/-- A text that a tenant may have as its ID. -/
structure ProperID [CaseTables] (id : String) : Prop where
  nonempty : id ≠ ""
  chars : ∀ c ∈ id.toList, IDChar c
  starts : id.toList.head? ≠ some '-'
  ends : id.toList.getLast? ≠ some '-'
  fixed : slug id = id

section IDChar

variable {c r : Char}

theorem IDChar.toNat (h : IDChar c) :
    (97 ≤ c.toNat ∧ c.toNat ≤ 122) ∨ (48 ≤ c.toNat ∧ c.toNat ≤ 57) ∨ c.toNat = 45 := by
  rcases h with h | h | rfl
  · exact .inl h
  · exact .inr (.inl h)
  · exact .inr (.inr rfl)

theorem IDChar.not_space (h : IDChar c) : isSpace c = false := by
  have hcases := h.toNat
  rw [Bool.eq_false_iff]
  intro hspace
  simp only [isSpace, Bool.or_eq_true, Bool.and_eq_true, decide_eq_true_eq, List.mem_cons,
    List.not_mem_nil, or_false] at hspace
  omega

theorem IDChar.toLower [GoTables] (h : IDChar c) : CaseTables.toLower c = c := by
  have hcases := h.toNat
  refine GoTables.toLower_ascii c (by omega) ?_
  rintro ⟨hlo, hhi⟩
  have hlo : 65 ≤ c.toNat := hlo
  have hhi : c.toNat ≤ 90 := hhi
  omega

theorem IDChar.slugChar (h : IDChar c) : slugChar c = [c] := by
  unfold Claimward.slugChar
  rcases h with h | h | rfl
  · rw [if_pos (.inl h)]
  · rw [if_pos (.inr h)]
  · decide

theorem idChar_of_mem_slugChar (h : c ∈ slugChar r) : IDChar c := by
  unfold slugChar at h
  split at h
  · rename_i hkept
    rw [List.mem_singleton.mp h]
    rcases hkept with hletter | hdigit
    · exact .inl hletter
    · exact .inr (.inl hdigit)
  · split at h
    · exact .inr (.inr (List.mem_singleton.mp h))
    · simp at h

theorem flatMap_slugChar {cs : List Char} (h : ∀ c ∈ cs, IDChar c) :
    cs.flatMap slugChar = cs := by
  induction cs with
  | nil => rfl
  | cons c cs ih =>
      obtain ⟨hc, hcs⟩ := List.forall_mem_cons.mp h
      rw [List.flatMap_cons, hc.slugChar, ih hcs]
      rfl

end IDChar

theorem toList_slug [CaseTables] (s : String) :
    (slug s).toList =
      trimChars (· = '-') ((toLower (trimSpace s)).toList.flatMap slugChar) := by
  rw [slug, trim, String.toList_ofList, String.toList_ofList]

theorem idChar_of_mem_slug [CaseTables] {s : String} {c : Char} (h : c ∈ (slug s).toList) :
    IDChar c := by
  rw [toList_slug] at h
  obtain ⟨r, -, hr⟩ := List.mem_flatMap.mp (mem_of_mem_trimChars h)
  exact idChar_of_mem_slugChar hr

theorem trimmed_slug [CaseTables] (s : String) : Trimmed (· = '-') (slug s).toList := by
  rw [toList_slug]
  exact trimmed_trimChars _ _

/-- Each of the four passes of `slug` leaves such a text alone. -/
theorem slug_eq_self [GoTables] {s : String} (hchars : ∀ c ∈ s.toList, IDChar c)
    (hends : Trimmed (· = '-') s.toList) : slug s = s := by
  have hspace : trimSpace s = s := by
    rw [trimSpace_eq_self_iff]
    exact ⟨fun c hc => (hchars c (List.mem_of_mem_head? hc)).not_space,
      fun c hc => (hchars c (List.mem_of_getLast? hc)).not_space⟩
  have hlower : toLower s = s := by
    have hmap : s.toList.map CaseTables.toLower = s.toList :=
      (List.map_congr_left fun c hc => (hchars c hc).toLower).trans (List.map_id _)
    rw [toLower, hmap, String.ofList_toList]
  rw [← String.toList_inj, toList_slug, hspace, hlower, flatMap_slugChar hchars,
    hends.trimChars_eq]

theorem slug_slug [GoTables] (s : String) : slug (slug s) = slug s :=
  slug_eq_self (fun _ hc => idChar_of_mem_slug hc) (trimmed_slug s)

theorem properID_of_chars [GoTables] {s : String} (hne : s ≠ "")
    (hchars : ∀ c ∈ s.toList, IDChar c) (hends : Trimmed (· = '-') s.toList) : ProperID s where
  nonempty := hne
  chars := hchars
  starts h := by simpa using hends.1 '-' h
  ends h := by simpa using hends.2 '-' h
  fixed := slug_eq_self hchars hends

/-- What `slug` makes is an ID, if it is anything. -/
theorem properID_slug [GoTables] {s : String} (h : slug s ≠ "") : ProperID (slug s) :=
  properID_of_chars h (fun _ hc => idChar_of_mem_slug hc) (trimmed_slug s)

theorem properID_default [GoTables] : ProperID defaultID := by
  have hchars : defaultID.toList = ['d', 'e', 'f', 'a', 'u', 'l', 't'] := by decide +kernel
  refine properID_of_chars (by decide) ?_ ?_
  · rw [hchars]
    simp only [List.mem_cons, List.not_mem_nil, or_false, forall_eq_or_imp, forall_eq]
    decide
  · rw [hchars]
    exact ⟨by simp, by simp⟩

/-- A tenant is created under an ID. -/
theorem TenantStore.properID_createID [GoTables] {t : Tenant} (h : createID t ≠ "") :
    ProperID (createID t) := by
  by_cases hid : slug t.id = ""
  · have hname : createID t = slug t.name := if_pos hid
    rw [hname] at h ⊢
    exact properID_slug h
  · have hgiven : createID t = slug t.id := if_neg hid
    rw [hgiven]
    exact properID_slug hid

end Claimward
