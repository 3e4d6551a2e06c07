import Claimward.Store
import Claimward.Wg.Key
import Mathlib.Data.Stream.Defs

/-!
# The provider's list of registered keys

`internal/peers`: the newest list, and its registrations by key text. A lookup
reads the clock once for the list and, when the list has the key, once more
for the registration; the readings are taken from a stream.
-/

namespace Claimward.Peers

open Wg

/-- `wireguard.Peer`: whose a key is, and until when. -/
structure Registration where
  key : Key
  subject : String
  expires : Time
  deriving DecidableEq, Repr

/-- `wireguard.List`. -/
structure KeyList where
  peers : List Registration
  expires : Time
  deriving DecidableEq, Repr

structure Registry where
  list : Option KeyList
  byKey : Table String Registration

/-- The registrations by key text. A later one of the same key replaces an
earlier one. -/
def KeyList.byKey (l : KeyList) : Table String Registration :=
  l.peers.foldl (fun t p => t.insert p.key.string p) ∅

namespace Registry

/-- A registry with no list yet. -/
def new : Registry := ⟨none, ∅⟩

/-- The part of `Refresh` under the lock: keep a fetched list. -/
def install (_ : Registry) (l : KeyList) : Registry := ⟨some l, l.byKey⟩

/-- `Lookup`, with the clock readings it has left. -/
def lookup (r : Registry) (key : String) (clock : Stream' Time) :
    Option Registration × Stream' Time :=
  match r.list with
  | none => (none, clock)
  | some l =>
      if ¬ clock.head < l.expires then (none, clock.tail)
      else match r.byKey.lookup key with
        | none => (none, clock.tail)
        | some p =>
            if ¬ clock.tail.head < p.expires then (none, clock.tail.tail)
            else (some p, clock.tail.tail)

variable {r : Registry} {key : String} {clock : Stream' Time} {p : Registration}

/-- What a successful lookup has checked. -/
theorem lookup_eq_some (h : (r.lookup key clock).1 = some p) :
    ∃ l, r.list = some l ∧ clock.head < l.expires ∧ r.byKey.lookup key = some p ∧
      clock.tail.head < p.expires := by
  unfold lookup at h
  split at h
  · simp at h
  · rename_i l hl
    split at h
    · simp at h
    · rename_i hexp
      split at h
      · simp at h
      · rename_i q hq
        split at h
        · simp at h
        · rename_i hq'
          simp only [Option.some.injEq] at h
          subst h
          exact ⟨l, hl, not_not.mp hexp, hq, not_not.mp hq'⟩

end Registry

private theorem byKey_fold {ps : List Registration} {t : Table String Registration}
    {key : String} {p : Registration}
    (h : (ps.foldl (fun t p => t.insert p.key.string p) t).lookup key = some p) :
    t.lookup key = some p ∨ p ∈ ps ∧ p.key.string = key := by
  induction ps generalizing t with
  | nil => exact Or.inl h
  | cons q qs ih =>
      rcases ih h with hq | ⟨hmem, hkey⟩
      · rw [Table.lookup_insert_eq] at hq
        split at hq
        · rename_i hk
          obtain rfl := Option.some.inj hq
          exact Or.inr ⟨List.mem_cons_self, hk.symm⟩
        · exact Or.inl hq
      · exact Or.inr ⟨List.mem_cons_of_mem _ hmem, hkey⟩

/-- What the table files under a key text is a registration of that key. -/
theorem KeyList.byKey_lookup {l : KeyList} {key : String} {p : Registration}
    (h : l.byKey.lookup key = some p) : p ∈ l.peers ∧ p.key.string = key := by
  rcases byKey_fold h with h | h
  · simp at h
  · exact h

/-- The table is that of the list. -/
def Registry.Consistent (r : Registry) : Prop :=
  r.byKey = (r.list.map KeyList.byKey).getD ∅

namespace Registry.Consistent

variable {r : Registry}

theorem new : Consistent .new := rfl

theorem install (r : Registry) (l : KeyList) : (r.install l).Consistent := rfl

theorem eq_install (h : r.Consistent) {l : KeyList} (hl : r.list = some l) :
    r = .install .new l := by
  obtain ⟨list, byKey⟩ := r
  subst hl
  exact congrArg (Registry.mk (some l)) h

/-- A lookup finds only registrations of the key text it is given. -/
theorem string_of_lookup (h : r.Consistent) {key : String} {clock : Stream' Time}
    {p : Registration} (hp : (r.lookup key clock).1 = some p) : p.key.string = key := by
  obtain ⟨l, hl, -, hkey, -⟩ := lookup_eq_some hp
  rw [h.eq_install hl] at hkey
  exact (KeyList.byKey_lookup hkey).2

end Registry.Consistent

end Claimward.Peers
