import Claimward.Api.Guarded

/-!
# Keys on the device and their entries

When no entry is deleted while its key is on the device, every key on the
device has an entry or is about to get one, whatever calls overlap.
-/

namespace Claimward.Api

open AtomicProgram AtomicProgram.Program Inet Wg Peers Runs

/-- Whenever an entry is deleted, its key is not on the device. -/
def DeletesOffDevice (c : Threads) : Turn → Bool
  | .start _ _ _ => true
  | .advance i =>
      match c.nextAction i with
      | some (.storeDelete key) =>
          match parseKey key with
          | .ok pub => (c.shared.device.lookup pub).isNone
          | .error _ => true
      | _ => true

/-- The key has an entry, or a call in progress is about to write one. -/
def Backed (c : Threads) (key : String) : Prop :=
  (∃ e, c.shared.store.get key = some e) ∨
    ∃ i p ω, c.thread i = some (p, ω) ∧ WillPut key p

/-- What holds in every state: the calls write what they have looked up, and
every key on the device has an entry or is about to get one. -/
structure Watched (c : Threads) : Prop where
  threads : c.Every fun p ω => Guarded p ∧ ω.Reliable
  registry : c.shared.registry.Consistent
  backed : ∀ pub, c.shared.device.lookup pub ≠ none → Backed c pub.string

section Steps

variable [GoText.CaseTables] {cfg : Config} {s : Server} {ω : Oracle} {a : Action}
  {next : Reply a → Handler Response}

/-- A guarded call goes on guarded from the reply of its next action. -/
theorem Guarded.exec (h : Guarded (.act a next)) (hω : ω.Reliable)
    (hs : s.registry.Consistent) : Guarded (next (exec a ω s).1) := by
  cases a with
  | lookup key => exact (h _ fun q hq => hs.string_of_lookup hq).2
  | addPeer pub ip =>
      have hadd : ω.addOk.head = true := hω.addOk 0
      simpa only [Api.exec, hadd] using h.2
  | _ => exact h _

theorem consistent_exec (h : s.registry.Consistent) :
    (exec a ω s).2.2.registry.Consistent := by
  by_cases ha : ∃ l, a = .install l
  · obtain ⟨l, rfl⟩ := ha
    exact Registry.Consistent.install s.registry l
  · rw [registry_exec ω s fun l hl => ha ⟨l, hl⟩]
    exact h

/-- What a call is about to write it still is about to write after its next
action, or has just written. -/
theorem WillPut.exec {key : String} (h : WillPut key (.act a next)) (hω : ω.Reliable) :
    (∃ e, (exec a ω s).2.2.store.get key = some e) ∨ WillPut key (next (exec a ω s).1) := by
  cases a with
  | storePut p =>
      obtain rfl := h
      exact Or.inl ⟨p, Store.get_put_eq_some.mpr (Or.inl ⟨rfl, rfl⟩)⟩
  | addPeer pub ip =>
      have hadd : ω.addOk.head = true := hω.addOk 0
      have hnext : WillPut key (next true) := h
      exact Or.inr (by simpa only [Api.exec, hadd] using hnext)
  | now => exact Or.inr (h _)
  | _ => exact h.elim

theorem watched_move {c : Threads} {m : Turn} (hpeers : cfg.usePeers = true) (h : Watched c)
    (hstart : m.StartsCall cfg) (hok : DeletesOffDevice c m = true) :
    Watched (c.move exec m) := by
  rcases c.move_cases exec m with heq | ⟨i, p, ω, rfl, hfree, heq⟩ |
    ⟨i, a, next, ω, rfl, hi, heq⟩
  · rw [heq]
    exact h
  · obtain ⟨⟨call, rfl⟩, hω⟩ := hstart
    rw [heq]
    refine ⟨h.threads.update ⟨guarded_call cfg hpeers call, hω⟩ _, h.registry, ?_⟩
    intro pub hpub
    rcases h.backed pub hpub with hentry | ⟨j, p, ω', hj, hput⟩
    · exact Or.inl hentry
    · have hne : j ≠ i := by
        rintro rfl
        exact absurd (hfree.symm.trans hj) (by simp)
      exact Or.inr ⟨j, p, ω', by simpa [Function.update_of_ne hne] using hj, hput⟩
  · obtain ⟨hguard, hω⟩ := h.threads i _ _ hi
    rw [heq]
    refine ⟨h.threads.update ⟨hguard.exec hω h.registry, hω.exec a c.shared⟩ _,
      consistent_exec h.registry, ?_⟩
    intro pub hpub
    rcases lookup_of_lookup_exec hpub with ⟨ip, rfl⟩ | hold
    · -- the peer just added gets its entry from this very call
      have hadd : ω.addOk.head = true := hω.addOk 0
      have hput : WillPut pub.string (next true) := hguard.1
      refine Or.inr ⟨i, _, _, Function.update_self _ _ _, ?_⟩
      simpa only [exec, hadd] using hput
    · have hdelete : a ≠ .storeDelete pub.string := by
        rintro rfl
        rw [DeletesOffDevice, Pool.nextAction_eq hi] at hok
        simp only [parseKey_string, Option.isNone_iff_eq_none] at hok
        exact hold hok
      rcases h.backed pub hold with ⟨e, hentry⟩ | ⟨j, p, ω', hj, hput⟩
      · exact Or.inl (get_exec_of_get hentry hdelete)
      · by_cases hji : j = i
        · subst hji
          obtain ⟨rfl, rfl⟩ := Prod.mk.inj (Option.some.inj (hj.symm.trans hi))
          rcases WillPut.exec hput hω with hentry | hput
          · exact Or.inl hentry
          · exact Or.inr ⟨j, _, _, Function.update_self _ _ _, hput⟩
        · exact Or.inr ⟨j, p, ω', by simpa [Function.update_of_ne hji] using hj, hput⟩

variable {alloc : Ipam.Allocator} {tenants : TenantStore} {turns : List Turn}

theorem watched_run (hpeers : cfg.usePeers = true) (hs : s = .start alloc ∅ .new tenants)
    (hstart : ∀ m ∈ turns, m.StartsCall cfg)
    (hrun : s.Interleaves (fun c m => DeletesOffDevice c m = true) turns) :
    Watched (s.interleave turns) := by
  refine (hrun.and_forall hstart).invariant Watched (fun c m hc hm => ?_) ?_
  · exact watched_move hpeers hc hm.1 hm.2
  · subst hs
    refine ⟨Pool.every_initial _, Registry.Consistent.new, ?_⟩
    intro pub hpub
    exact absurd rfl hpub

end Steps

end Claimward.Api
