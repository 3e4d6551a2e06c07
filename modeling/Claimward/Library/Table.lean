import Mathlib.Data.List.AList

/-!
# Finite tables

Association lists without repeated keys, read as finite maps: the values they
hold, and the table with every value replaced by its image.
-/

abbrev Table (K V : Type*) := AList fun _ : K => V

namespace Table

variable {K V W : Type*}

/-- The values of a table, in the order of its entries. -/
def values (t : Table K V) : List V := t.entries.map Sigma.snd

/-- Replace every value by its image. -/
def mapValues (f : V → W) (t : Table K V) : Table K W where
  entries := t.entries.map fun e => ⟨e.1, f e.2⟩
  nodupKeys := by
    have h := t.nodupKeys
    simp only [List.NodupKeys, List.keys, List.map_map] at h ⊢
    exact h

variable [DecidableEq K]

theorem mem_values {t : Table K V} {v : V} : v ∈ values t ↔ ∃ k, t.lookup k = some v := by
  constructor
  · intro h
    obtain ⟨⟨k, w⟩, hmem, rfl⟩ := List.mem_map.mp h
    exact ⟨k, AList.mem_lookup_iff.mpr hmem⟩
  · rintro ⟨k, hk⟩
    exact List.mem_map.mpr ⟨⟨k, v⟩, AList.mem_lookup_iff.mp hk, rfl⟩

/-- A table that holds no value under two keys lists no value twice. -/
theorem nodup_values {t : Table K V}
    (h : ∀ k k' v, t.lookup k = some v → t.lookup k' = some v → k = k') : (values t).Nodup := by
  apply List.Nodup.map_on
  · rintro ⟨k, v⟩ hk ⟨k', v'⟩ hk' heq
    obtain rfl : v = v' := heq
    obtain rfl := h k k' v (AList.mem_lookup_iff.mpr hk) (AList.mem_lookup_iff.mpr hk')
    rfl
  · exact (List.Nodup.of_map _ t.nodupKeys)

@[simp] theorem lookup_mapValues (f : V → W) (t : Table K V) (k : K) :
    (mapValues f t).lookup k = (t.lookup k).map f := by
  cases h : t.lookup k with
  | none =>
      rw [Option.map_none]
      apply AList.lookup_eq_none.mpr
      have hk := AList.lookup_eq_none.mp h
      rw [AList.mem_keys] at hk ⊢
      simpa [mapValues, AList.keys, List.keys] using hk
  | some v =>
      rw [Option.map_some]
      apply AList.mem_lookup_iff.mpr
      exact List.mem_map.mpr ⟨⟨k, v⟩, AList.mem_lookup_iff.mp h, rfl⟩

theorem lookup_insert_eq (t : Table K V) (k k' : K) (v : V) :
    (t.insert k v).lookup k' = if k' = k then some v else t.lookup k' := by
  by_cases h : k' = k
  · subst h; simp
  · simp [h, AList.lookup_insert_ne h]

theorem lookup_erase_eq (t : Table K V) (k k' : K) :
    (t.erase k).lookup k' = if k' = k then none else t.lookup k' := by
  by_cases h : k' = k
  · subst h; simp
  · simp [h, AList.lookup_erase_ne h]

end Table
