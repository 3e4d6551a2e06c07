import Claimward.Api.Calls
import Claimward.Library.Interleaving

/-!
# Calls that overlap

The server with any number of calls in progress: each is a thread, and each
atomic action of a thread is one step.
-/

namespace Claimward.Api

open AtomicProgram Inet Wg Peers

/-- The server and its calls in progress. -/
abbrev Threads := Pool interface Oracle Server Response

abbrev Turn := Move interface Oracle Response

/-- Whatever is started is a call, on a device that never fails. -/
def Turn.StartsCall (cfg : Config) : Turn → Prop
  | .start _ p ω => (∃ c : Call, p = c.program cfg) ∧ ω.Reliable
  | .advance _ => True

variable [GoText.CaseTables]

/-- The state after a list of turns, from no call in progress. -/
abbrev Server.interleave (s : Server) (turns : List Turn) : Threads :=
  Runs.run (Pool.move exec) (.initial s) turns

/-- Every turn of the list meets the condition on the state it is taken in. -/
abbrev Server.Interleaves (ok : Threads → Turn → Prop) (s : Server) (turns : List Turn) : Prop :=
  Runs.Admissible (Pool.move exec) ok (.initial s) turns

/-- A device that never fails goes on so. -/
theorem Oracle.Reliable.exec {ω : Oracle} (h : ω.Reliable) (a : Action) (s : Server) :
    (exec a ω s).2.1.Reliable := by
  cases a with
  | addPeer pub ip => exact ⟨fun n => h.addOk (n + 1), h.removeOk, h.peersOk⟩
  | removePeer pub => exact ⟨h.addOk, fun n => h.removeOk (n + 1), h.peersOk⟩
  | _ => exact ⟨h.addOk, h.removeOk, h.peersOk⟩

section Frames

variable {a : Action} (ω : Oracle) (s : Server)

/-- Only an installed list changes the registry. -/
theorem registry_exec (ha : ∀ l, a ≠ .install l) :
    (exec a ω s).2.2.registry = s.registry := by
  cases a with
  | install l => exact absurd rfl (ha l)
  | addPeer pub ip =>
      simp only [exec]
      split
      · rfl
      · rfl
  | removePeer pub =>
      simp only [exec]
      split
      · rfl
      · rfl
  | _ => simp only [exec]

/-- The actions that write the store. -/
def Action.WritesStore : Action → Prop
  | .storePut _ => True
  | .storeDelete _ => True
  | .storeRenew _ _ => True
  | _ => False

theorem store_exec (ha : ¬ a.WritesStore) : (exec a ω s).2.2.store = s.store := by
  cases a with
  | storePut p => exact absurd trivial ha
  | storeDelete key => exact absurd trivial ha
  | storeRenew key expiry => exact absurd trivial ha
  | addPeer pub ip =>
      simp only [exec]
      split
      · rfl
      · rfl
  | removePeer pub =>
      simp only [exec]
      split
      · rfl
      · rfl
  | _ => simp only [exec]

/-- The actions that write the device. -/
def Action.WritesDevice : Action → Prop
  | .addPeer _ _ => True
  | .removePeer _ => True
  | _ => False

theorem device_exec (ha : ¬ a.WritesDevice) : (exec a ω s).2.2.device = s.device := by
  cases a with
  | addPeer pub ip => exact absurd trivial ha
  | removePeer pub => exact absurd trivial ha
  | _ => simp only [exec]

/-- The actions that write the tenants. -/
def Action.WritesTenants : Action → Prop
  | .createTenant _ => True
  | .updateTenant _ _ => True
  | .deleteTenant _ => True
  | _ => False

theorem tenants_exec (ha : ¬ a.WritesTenants) : (exec a ω s).2.2.tenants = s.tenants := by
  cases a with
  | createTenant t => exact absurd trivial ha
  | updateTenant id inp => exact absurd trivial ha
  | deleteTenant id => exact absurd trivial ha
  | addPeer pub ip =>
      simp only [exec]
      split
      · rfl
      · rfl
  | removePeer pub =>
      simp only [exec]
      split
      · rfl
      · rfl
  | _ => simp only [exec]

variable {ω s}

/-- Only a deletion takes an entry away. -/
theorem get_exec_of_get {key : String} {e : Peer} (h : s.store.get key = some e)
    (ha : a ≠ .storeDelete key) : ∃ e', (exec a ω s).2.2.store.get key = some e' := by
  cases a with
  | storePut p =>
      by_cases hk : key = p.publicKey
      · exact ⟨p, Store.get_put_eq_some.mpr (Or.inl ⟨hk, rfl⟩)⟩
      · exact ⟨e, Store.get_put_eq_some.mpr (Or.inr ⟨hk, h⟩)⟩
  | storeDelete k =>
      have hk : key ≠ k := fun heq => ha (by rw [heq])
      refine ⟨e, ?_⟩
      simp only [exec, Store.get_delete, if_neg hk, h]
  | storeRenew k t =>
      obtain ⟨t', ht⟩ := Store.get_renew_of_get h
      exact ⟨_, ht⟩
  | _ =>
      rw [store_exec ω s id]
      exact ⟨e, h⟩

/-- Only `AddPeer` puts a key on the device. -/
theorem lookup_of_lookup_exec {pub : Key} (h : (exec a ω s).2.2.device.lookup pub ≠ none) :
    (∃ ip, a = .addPeer pub ip) ∨ s.device.lookup pub ≠ none := by
  cases a with
  | addPeer pub' ip =>
      simp only [exec] at h
      split at h
      · by_cases hpub : pub = pub'
        · exact Or.inl ⟨ip, by rw [hpub]⟩
        · rw [Device.lookup_addPeer, if_neg hpub] at h
          exact Or.inr fun hnone => h (by rw [hnone, Option.map_none])
      · exact Or.inr h
  | removePeer pub' =>
      simp only [exec] at h
      split at h
      · rw [Device.lookup_removePeer] at h
        split at h
        · exact absurd rfl h
        · exact Or.inr h
      · exact Or.inr h
  | _ =>
      rw [device_exec ω s id] at h
      exact Or.inr h

/-- An entry after an action was there before, with its subject, or the action
has written it. -/
theorem get_of_get_exec {k : String} {e : Peer} (h : (exec a ω s).2.2.store.get k = some e) :
    (∃ e', s.store.get k = some e' ∧ e'.subject = e.subject) ∨
      ∃ p, a = .storePut p ∧ p.publicKey = k ∧ p = e := by
  cases a with
  | storePut p =>
      rcases Store.get_put_eq_some.mp h with ⟨rfl, rfl⟩ | ⟨-, hold⟩
      · exact Or.inr ⟨e, rfl, rfl, rfl⟩
      · exact Or.inl ⟨e, hold, rfl⟩
  | storeDelete key =>
      simp only [exec, Store.get_delete] at h
      split at h
      · exact absurd h (by simp)
      · exact Or.inl ⟨e, h, rfl⟩
  | storeRenew key t =>
      obtain ⟨e', hold, he⟩ := Store.get_of_get_renew h
      exact Or.inl ⟨e', hold, by rw [he]⟩
  | _ =>
      rw [store_exec ω s id] at h
      exact Or.inl ⟨e, h, rfl⟩

end Frames

namespace Sample

/-- Start a call in a slot. -/
def begin (slot : ℕ) (usePeers : Bool) (c : Call) : List Turn :=
  [.start slot (c.program (config usePeers)) (oracle true true)]

/-- Let the call of a slot take a number of steps. -/
def steps (slot n : ℕ) : List Turn := List.replicate n (.advance slot)

end Sample

end Claimward.Api
