import Claimward.Library.Inet
import Claimward.Library.Table

/-!
# The registry of enrolled peers

`internal/store`: a table from public key texts to peers. Every entry is filed
under its own public key, which the structure carries as a field.
-/

namespace Claimward

/-- Instants and durations, in nanoseconds. -/
abbrev Time := Int

open Inet

structure DeviceInfo where
  name : String
  platform : String
  deriving DecidableEq, Repr

structure Peer where
  publicKey : String
  subject : String
  email : String
  ip : IP
  device : DeviceInfo
  enrolledAt : Time
  leaseExpiry : Time
  tenant : String
  deriving DecidableEq, Repr

structure Store where
  peers : Table String Peer
  keyed : ∀ {k p}, peers.lookup k = some p → p.publicKey = k

namespace Store

def new : Store := ⟨∅, by simp⟩

def get (s : Store) (pubKey : String) : Option Peer := s.peers.lookup pubKey

def put (s : Store) (p : Peer) : Store where
  peers := s.peers.insert p.publicKey p
  keyed := by
    intro k q h
    rw [Table.lookup_insert_eq] at h
    split at h
    · rename_i hk
      rw [hk, Option.some.inj h]
    · exact s.keyed h

def delete (s : Store) (pubKey : String) : Store where
  peers := s.peers.erase pubKey
  keyed := by
    intro k q h
    rw [Table.lookup_erase_eq] at h
    split at h
    · exact absurd h (by simp)
    · exact s.keyed h

/-- `Renew` writes the lease through the pointer the table holds. -/
def renew (s : Store) (pubKey : String) (expiry : Time) : Bool × Store :=
  match s.get pubKey with
  | none => (false, s)
  | some p => (true, s.put { p with leaseExpiry := expiry })

/-- The peers, in one of the orders in which the map may be walked. -/
def list (s : Store) : List Peer := Table.values s.peers

/-- The peers whose lease ended at or before `now`. -/
def expired (s : Store) (now : Time) : List Peer :=
  s.list.filter fun p => p.leaseExpiry ≤ now

variable {s : Store} {k k' : String} {p : Peer} {t : Time}

@[simp] theorem get_new : (new.get k) = none := by simp [get, new]

theorem get_put : (s.put p).get k = if k = p.publicKey then some p else s.get k :=
  Table.lookup_insert_eq _ _ _ _

theorem get_put_eq_some {q : Peer} : (s.put q).get k = some p ↔
    k = q.publicKey ∧ p = q ∨ k ≠ q.publicKey ∧ s.get k = some p := by
  rw [get_put]
  split
  · rename_i hk
    simp [hk, eq_comm]
  · rename_i hk
    simp [hk]

theorem get_delete : (s.delete k).get k' = if k' = k then none else s.get k' :=
  Table.lookup_erase_eq _ _ _

theorem key_of_get (h : s.get k = some p) : p.publicKey = k := s.keyed h

theorem get_renew : (s.renew k t).2.get k' =
    if k' = k then (s.get k).map fun p => { p with leaseExpiry := t } else s.get k' := by
  cases h : s.get k with
  | none =>
      by_cases hk : k' = k
      · simp [renew, h, hk]
      · simp [renew, h, hk]
  | some p =>
      have hp := key_of_get h
      simp [renew, h, get_put, hp]

theorem get_renew_eq_some {q : Peer} (hq : s.get k = some q) :
    (s.renew k t).2.get k' = some p ↔
      k' = k ∧ p = { q with leaseExpiry := t } ∨ k' ≠ k ∧ s.get k' = some p := by
  rw [get_renew, hq]
  split
  · rename_i hk
    simp [hk, eq_comm]
  · rename_i hk
    simp [hk]

/-- A renewal changes no more of an entry than its lease. -/
theorem get_of_get_renew {q : Peer} (h : (s.renew k t).2.get k' = some q) :
    ∃ p, s.get k' = some p ∧ q = { p with leaseExpiry := q.leaseExpiry } := by
  rw [get_renew] at h
  split at h
  · rename_i hk
    obtain ⟨p, hp, rfl⟩ := Option.map_eq_some_iff.mp h
    exact ⟨p, hk ▸ hp, rfl⟩
  · exact ⟨q, h, rfl⟩

theorem get_renew_of_get (h : s.get k' = some p) :
    ∃ e, (s.renew k t).2.get k' = some { p with leaseExpiry := e } := by
  rw [get_renew]
  split
  · rename_i hk
    exact ⟨t, by rw [← hk, h, Option.map_some]⟩
  · exact ⟨p.leaseExpiry, h⟩

theorem mem_list : p ∈ s.list ↔ s.get p.publicKey = some p := by
  rw [list, Table.mem_values]
  constructor
  · rintro ⟨k, hk⟩
    rw [show p.publicKey = k from s.keyed hk]
    exact hk
  · intro h
    exact ⟨_, h⟩

theorem mem_list_of_get (h : s.get k = some p) : p ∈ s.list := by
  rw [mem_list, key_of_get h, h]

theorem nodup_keys_list : (s.list.map Peer.publicKey).Nodup := by
  have hkeys : s.list.map Peer.publicKey = s.peers.keys := by
    simp only [list, Table.values, AList.keys, List.keys, List.map_map]
    apply List.map_congr_left
    intro e he
    exact s.keyed (AList.mem_lookup_iff.mpr he)
  rw [hkeys]
  exact s.peers.keys_nodup

theorem mem_expired : p ∈ s.expired t ↔ s.get p.publicKey = some p ∧ p.leaseExpiry ≤ t := by
  simp [expired, mem_list]

end Store

end Claimward
