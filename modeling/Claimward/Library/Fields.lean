import Claimward.Library.GoText

/-!
# Lists written with a separator

A list is read from a text by cutting it at the separators, trimming every piece
and leaving out the empty ones. What is read is a list of entries, and every list
of entries is read from a text: the one that has them joined.
-/

namespace GoText

variable {p : Char → Bool} {sep : Char}

/-- The pieces of a text between the separators, trimmed, without the empty ones. -/
def fields (p : Char → Bool) (sep : Char) (s : String) : List String :=
  ((s.toList.splitOn sep).map fun part => String.ofList (trimChars p part)).filter (· ≠ "")

/-- What can be read as an entry of a list. -/
structure Entry (p : Char → Bool) (sep : Char) (e : String) : Prop where
  nonempty : e ≠ ""
  whole : sep ∉ e.toList
  trimmed : Trimmed p e.toList

/-- No piece has the separator. -/
theorem notMem_of_mem_splitOn {cs part : List Char} (h : part ∈ cs.splitOn sep) : sep ∉ part := by
  induction cs generalizing part with
  | nil =>
      rw [List.splitOn_nil, List.mem_singleton] at h
      simp [h]
  | cons c cs ih =>
      obtain ⟨first, rest, hparts⟩ := List.exists_cons_of_ne_nil (List.splitOn_ne_nil sep cs)
      rw [List.splitOn_cons_eq_if_modifyHead, hparts] at h
      rw [hparts] at ih
      by_cases hc : c = sep
      · rw [if_pos (by simpa using hc), List.mem_cons] at h
        cases h with
        | inl hnil => simp [hnil]
        | inr hrest => exact ih hrest
      · rw [if_neg (by simpa using hc), List.modifyHead_cons, List.mem_cons] at h
        cases h with
        | inl hfirst =>
            rw [hfirst, List.mem_cons, not_or]
            exact ⟨Ne.symm hc, ih List.mem_cons_self⟩
        | inr hrest => exact ih (List.mem_cons_of_mem first hrest)

/-- What is read are entries. -/
theorem entry_of_mem_fields {s e : String} (h : e ∈ fields p sep s) : Entry p sep e := by
  obtain ⟨hmem, hne⟩ := List.mem_filter.mp h
  obtain ⟨part, hpart, rfl⟩ := List.mem_map.mp hmem
  refine ⟨of_decide_eq_true hne, ?_, ?_⟩
  · rw [String.toList_ofList]
    exact fun hsep => notMem_of_mem_splitOn hpart (mem_of_mem_trimChars hsep)
  · rw [String.toList_ofList]
    exact trimmed_trimChars p part

/-- A text without the separator is read as itself, trimmed. -/
theorem fields_whole {s : String} (h : sep ∉ s.toList) :
    fields p sep s = if trimChars p s.toList = [] then []
      else [String.ofList (trimChars p s.toList)] := by
  rw [fields, List.splitOn_eq_singleton h, List.map_singleton]
  by_cases hblank : trimChars p s.toList = []
  · simp [hblank]
  · simp [hblank]

theorem fields_singleton {e : String} (h : Entry p sep e) : fields p sep e = [e] := by
  have hne : e.toList ≠ [] := fun hnil => h.nonempty (String.toList_eq_nil_iff.mp hnil)
  rw [fields_whole h.whole, h.trimmed.trimChars_eq, if_neg hne, String.ofList_toList]

/-- A text is read piece by piece. -/
theorem fields_append (a b : String) :
    fields p sep (a ++ String.singleton sep ++ b) = fields p sep a ++ fields p sep b := by
  simp only [fields, String.toList_append, String.toList_singleton, List.append_assoc,
    List.cons_append, List.nil_append, List.splitOn_append_cons_self, List.map_append,
    List.filter_append]

/-- What is trimmed may stand at the front. -/
theorem fields_blank_append {c : Char} (hp : p c = true) (hsep : c ≠ sep) (s : String) :
    fields p sep (String.singleton c ++ s) = fields p sep s := by
  obtain ⟨part, rest, hparts⟩ := List.exists_cons_of_ne_nil (List.splitOn_ne_nil sep s.toList)
  simp only [fields, String.toList_append, String.toList_singleton, List.cons_append,
    List.nil_append, List.splitOn_cons_eq_if_modifyHead, beq_iff_eq, hsep, if_false, hparts,
    List.modifyHead_cons, List.map_cons, trimChars_cons hp]

/-- Entries joined with the separator are read back. -/
theorem fields_intercalate {xs : List String} (h : ∀ e ∈ xs, Entry p sep e) :
    fields p sep ((String.singleton sep).intercalate xs) = xs := by
  induction xs with
  | nil => simp [fields, trimChars]
  | cons x rest ih =>
      obtain ⟨hx, hrest⟩ := List.forall_mem_cons.mp h
      cases rest with
      | nil => exact fields_singleton hx
      | cons y ys =>
          calc fields p sep ((String.singleton sep).intercalate (x :: y :: ys))
              = fields p sep (x ++ String.singleton sep ++
                  (String.singleton sep).intercalate (y :: ys)) := by
                rw [String.intercalate_cons_cons]
            _ = fields p sep x ++ fields p sep ((String.singleton sep).intercalate (y :: ys)) :=
                fields_append _ _
            _ = x :: y :: ys := by rw [fields_singleton hx, ih hrest, List.singleton_append]

/-- A blank text has no entries. -/
theorem fields_blank {s : String} (hsep : p sep = false) (h : trimChars p s.toList = []) :
    fields p sep s = [] := by
  have hwhole : sep ∉ s.toList := by
    intro hmem
    have hkept := mem_trimChars hmem hsep
    rw [h] at hkept
    exact absurd hkept List.not_mem_nil
  rw [fields_whole hwhole, if_pos h]

end GoText
