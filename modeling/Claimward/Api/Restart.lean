import Claimward.Api.Foreign
import Claimward.Api.Rules
import Claimward.Api.Threads

/-!
# What a restart finds on the device

The store is gone after a restart, the peers of the device are not. `Sweep`
tells those that a previous run left by their shape. It finds all of them,
wherever the run was stopped: a peer of the device has the address of an entry,
or is the one that an enrollment has just added.
-/

namespace Claimward.Api

open AtomicProgram AtomicProgram.Program Inet Wg Runs

/-- Every peer of the device has the address of an entry that spells its key, and
nothing else. -/
def Covered (s : Server) : Prop :=
  ∀ pub nets, s.device.lookup pub = some nets →
    ∃ k p, s.store.get k = some p ∧ Spells p pub ∧ nets = [hostNet p.ip]

section Steps

variable {s : Server}

/-- An entry is written and its key programmed, at an address that no entry of
another text has. -/
theorem Covered.put (h : Covered s) {p : Peer} {pub : Key} {a : Ipam.Allocator}
    (hp : Spells p pub)
    (hip : ∀ k q, s.store.get k = some q → k ≠ p.publicKey → q.ip ≠ p.ip) :
    Covered { s with
      alloc := a, device := s.device.addPeer pub p.ip, store := s.store.put p } := by
  intro k nets hk
  by_cases hpub : k = pub
  · subst hpub
    rw [Device.lookup_addPeer, if_pos rfl] at hk
    refine ⟨p.publicKey, p, ?_, hp, (Option.some.inj hk).symm⟩
    exact Store.get_put_eq_some.mpr (Or.inl ⟨rfl, rfl⟩)
  · have hold : ∃ old, s.device.lookup k = some old := by
      rw [Device.lookup_addPeer, if_neg hpub] at hk
      obtain ⟨old, hold, -⟩ := Option.map_eq_some_iff.mp hk
      exact ⟨old, hold⟩
    obtain ⟨old, hold⟩ := hold
    obtain ⟨l, q, hq, hspell, rfl⟩ := h k old hold
    have hl : l ≠ p.publicKey := by
      rintro rfl
      rw [Spells, Store.key_of_get hq] at hspell
      exact hpub (Except.ok.inj (hspell.symm.trans hp))
    refine ⟨l, q, Store.get_put_eq_some.mpr (Or.inr ⟨hl, hq⟩), hspell, ?_⟩
    exact Option.some.inj (hk.symm.trans (lookup_addPeer_other hpub hold (hip l q hq hl)))

theorem Covered.dropAll (h : Covered s) {c : Call} {ω : Oracle} (hω : ω.Reliable) :
    Covered (s.dropAll (c.dropped ω s) ω.removeOk) := by
  intro pub nets hpub
  rw [lookup_dropAll hω.removeOk] at hpub
  split at hpub
  · exact absurd hpub (by simp)
  · rename_i hnone
    obtain ⟨k, p, hp, hspell, rfl⟩ := h pub nets hpub
    refine ⟨k, p, get_dropAll_eq_some.mpr ⟨hp, ?_⟩, hspell, rfl⟩
    intro hmem
    obtain ⟨q, hq, rfl⟩ := List.mem_map.mp hmem
    have hqp : q = p := Option.some.inj ((get_of_mem_dropped hq).symm.trans hp)
    exact hnone ⟨q, hq, hqp ▸ hspell⟩

theorem Covered.renew (h : Covered s) (key : String) (expiry : Time) :
    Covered { s with store := (s.store.renew key expiry).2 } := by
  intro pub nets hpub
  obtain ⟨k, p, hp, hspell, rfl⟩ := h pub nets hpub
  obtain ⟨e, he⟩ := Store.get_renew_of_get (k := key) (t := expiry) hp
  exact ⟨k, _, he, hspell, rfl⟩

variable [GoText.CaseTables] {cfg : Config} {fixed : Set String}

theorem Covered.step (h : Covered s) (hbal : LeaseBook.Balanced fixed s.book) {l : Call × Oracle}
    (hω : l.2.Reliable) : Covered (s.serve cfg l) := by
  obtain ⟨c, ω⟩ := l
  obtain ⟨r, s', hs', heff⟩ := exists_effect cfg ω s c
  rw [hs']
  cases heff with
  | idle hr => exact h
  | install hr => exact h
  | tenants hkeep hr => exact h
  | disown hadm hget hown hfail hr => exact h
  | drop hr => exact h.dropAll hω
  | renew hget hown hmember hlease => exact h.renew _ _
  | @reassign claims req pub expiry tenantID existing r hadm hget hown hadd at' hr =>
      apply h.put (p := entry claims req expiry tenantID existing.ip at') (a := s.alloc) hadm.parsed
      intro k q hq hk
      have hne : q.ip ≠ existing.ip := distinct_of_balanced hbal hq hget hk
      exact hne
  | @assign claims req pub expiry tenantID ip r hadm hget hfree hadd at' hr =>
      apply h.put (p := entry claims req expiry tenantID ip at') hadm.parsed
      intro k q hq _
      exact ip_ne_of_free hbal hfree hq

end Steps

/-- The program leaves the device alone. -/
abbrev LeavesDevice (p : Handler Response) : Prop := p.Only fun a : Action => ¬ a.WritesDevice

/-- After an `AddPeer`, the program leaves the device alone. -/
def AddsLast : Handler Response → Prop
  | .ret _ => True
  | .act a next => ∀ r,
      ((∃ pub ip, a = .addPeer pub ip) → LeavesDevice (next r)) ∧ AddsLast (next r)

theorem addsLast_act {a : Action} {next : Reply a → Handler Response}
    (ha : ∀ pub ip, a ≠ .addPeer pub ip) (h : ∀ r, AddsLast (next r)) :
    AddsLast (.act a next) :=
  fun r => ⟨fun ⟨pub, ip, heq⟩ => absurd heq (ha pub ip), h r⟩

theorem addsLast_of_leavesDevice {p : Handler Response} (h : LeavesDevice p) : AddsLast p := by
  induction p with
  | ret r => trivial
  | act a next ih => exact fun r => ⟨fun _ => h.2 r, ih r (h.2 r)⟩

section Programs

variable {cfg : Config} {claims : Claims} {req : EnrollRequest} {pub : Key} {expiry : Time}
  {tenantID : String}

theorem addsLast_enrollPeer {ip : IP} :
    AddsLast (enrollPeer cfg claims req pub expiry tenantID ip) := by
  intro ok
  suffices hrest : LeavesDevice _ from ⟨fun _ => hrest, addsLast_of_leavesDevice hrest⟩
  cases ok with
  | true =>
      refine ⟨fun h => h, fun enrolledAt => ⟨fun h => h, fun _ => ⟨fun h => h, fun rs => ?_⟩⟩⟩
      cases rs with
      | none => trivial
      | some rs => trivial
  | false => exact ⟨fun h => h, fun _ => trivial⟩

theorem addsLast_enrollAddress :
    AddsLast (enrollAddress cfg claims req pub expiry tenantID) := by
  apply enrollAddress_rule
  · exact fun _ _ _ => trivial
  · exact fun next ih => addsLast_act (by simp) ih
  · exact fun next ih => addsLast_act (by simp) ih
  · exact fun ip => addsLast_enrollPeer

theorem closed_addsLast : Closed AddsLast where
  ret _ := trivial
  now h := addsLast_act (by simp) h
  storeGet h := addsLast_act (by simp) h
  storeRenew h := addsLast_act (by simp) h
  storeExpired h := addsLast_act (by simp) h
  storeList h := addsLast_act (by simp) h
  drop h := addsLast_act (by simp) fun _ => addsLast_act (by simp) fun _ => h
  removePeer h := addsLast_act (by simp) h
  lookup h := addsLast_act (by simp) h
  install h := addsLast_act (by simp) h
  tenantsFor h := addsLast_act (by simp) h
  isMember h := addsLast_act (by simp) h
  createTenant h := addsLast_act (by simp) h
  updateTenant h := addsLast_act (by simp) h
  deleteTenant h := addsLast_act (by simp) h

theorem addsLast_call (c : Call) : AddsLast (c.program cfg) :=
  closed_addsLast.call (fun _ _ _ _ _ _ => addsLast_enrollAddress) c

end Programs

section Stopped

variable [GoText.CaseTables] {a : Action} {ω : Oracle} {s : Server} {k : Key} {nets : List IPNet}

/-- Any other action than `AddPeer` leaves no peer on the device that was not
there. -/
theorem lookup_of_lookup_exec_of_ne (ha : ∀ pub ip, a ≠ .addPeer pub ip)
    (h : (exec a ω s).2.2.device.lookup k = some nets) : s.device.lookup k = some nets := by
  cases a with
  | addPeer pub ip => exact absurd rfl (ha pub ip)
  | removePeer pub =>
      simp only [exec] at h
      split at h
      · rw [Device.lookup_removePeer] at h
        split at h
        · exact absurd h (by simp)
        · exact h
      · exact h
  | _ =>
      rw [device_exec ω s id] at h
      exact h

theorem device_runFor {p : Handler Response} (h : LeavesDevice p) (n : ℕ) :
    (p.runFor exec n ω s).device = s.device :=
  h.runFor (Q := fun s' : Server => s'.device = s.device)
    (fun _ ω' s' ha hs' => (device_exec ω' s' ha).trans hs') n rfl

theorem device_run {p : Handler Response} (h : LeavesDevice p) :
    (p.run exec ω s).2.2.device = s.device :=
  h.run (Q := fun s' : Server => s'.device = s.device)
    (fun _ ω' s' ha hs' => (device_exec ω' s' ha).trans hs') rfl

/-- Wherever a program is stopped that adds a peer last, a peer of the device was
there before or is there after the whole program. -/
theorem lookup_runFor {p : Handler Response} (h : AddsLast p) {n : ℕ}
    (hk : (p.runFor exec n ω s).device.lookup k = some nets) :
    s.device.lookup k = some nets ∨ (p.run exec ω s).2.2.device.lookup k = some nets := by
  induction p generalizing n ω s with
  | ret r =>
      cases n with
      | zero => exact Or.inl hk
      | succ n => exact Or.inl hk
  | act a next ih =>
      cases n with
      | zero => exact Or.inl hk
      | succ n =>
          obtain ⟨hlast, hnext⟩ := h (exec a ω s).1
          by_cases ha : ∃ pub ip, a = .addPeer pub ip
          · -- The rest leaves the device alone, so the whole program does what is done by now.
            have hstopped := device_runFor (hlast ha) n (ω := (exec a ω s).2.1)
              (s := (exec a ω s).2.2)
            have hwhole := device_run (hlast ha) (ω := (exec a ω s).2.1) (s := (exec a ω s).2.2)
            right
            rw [run_act, hwhole, ← hstopped]
            exact hk
          · rcases ih (exec a ω s).1 hnext hk with hbefore | hafter
            · refine Or.inl (lookup_of_lookup_exec_of_ne (fun pub ip heq => ?_) hbefore)
              exact ha ⟨pub, ip, heq⟩
            · exact Or.inr hafter

end Stopped

section Sweep

variable [GoText.CaseTables] {pool : IPNet} {ω : Oracle} {s : Server}

/-- A loop of `Sweep` that ends without an error has removed and counted every
peer of the shape. -/
theorem sweepLoop_ok {ps : List Wg.Peer} {removed : ℕ}
    (hok : ((sweepLoop pool ps removed).run exec ω s).1.2 = true) :
    ((sweepLoop pool ps removed).run exec ω s).1.1 =
        removed + ps.countP (fun p => ours p.allowedIPs pool) ∧
      ∀ k, ((sweepLoop pool ps removed).run exec ω s).2.2.device.lookup k =
        if ∃ p ∈ ps, ours p.allowedIPs pool = true ∧ p.publicKey = k then none
        else s.device.lookup k := by
  induction ps generalizing removed ω s with
  | nil => simp [sweepLoop]
  | cons p rest ih =>
      cases hours : ours p.allowedIPs pool with
      | false =>
          simp only [sweepLoop, hours, Bool.false_eq_true, if_false] at hok ⊢
          obtain ⟨hcount, hdevice⟩ := ih hok
          refine ⟨?_, fun k => ?_⟩
          · rw [hcount, List.countP_cons_of_neg (by simp [hours])]
          · rw [hdevice k]
            simp [hours]
      | true =>
          cases hremove : ω.removeOk.head with
          | false => simp [sweepLoop, hours, hremove] at hok
          | true =>
              have hrun : (sweepLoop pool (p :: rest) removed).run exec ω s =
                  (sweepLoop pool rest (removed + 1)).run exec
                    { ω with removeOk := ω.removeOk.tail }
                    { s with device := s.device.removePeer p.publicKey } := by
                simp [sweepLoop, hours, hremove]
              rw [hrun] at hok ⊢
              obtain ⟨hcount, hdevice⟩ := ih hok
              refine ⟨?_, fun k => ?_⟩
              · rw [hcount, List.countP_cons_of_pos (by simpa using hours)]
                omega
              · rw [hdevice k, Device.lookup_removePeer]
                by_cases hk : k = p.publicKey
                · simp [hours, hk]
                · simp [hours, hk, Ne.symm hk]

/-- A `Sweep` without an error leaves exactly the peers that do not have the
shape. -/
theorem sweep_ok (hok : ((sweep pool).run exec ω s).1.2 = true) :
    ((sweep pool).run exec ω s).1.1 =
        s.device.peers.countP (fun p => ours p.allowedIPs pool) ∧
      ∀ p, p ∈ ((sweep pool).run exec ω s).2.2.device.peers ↔
        p ∈ s.device.peers ∧ ours p.allowedIPs pool = false := by
  cases hpeers : ω.peersOk with
  | false => simp [sweep, hpeers] at hok
  | true =>
      have hrun : (sweep pool).run exec ω s = (sweepLoop pool s.device.peers 0).run exec ω s := by
        simp [sweep, hpeers]
      rw [hrun] at hok ⊢
      obtain ⟨hcount, hdevice⟩ := sweepLoop_ok hok
      refine ⟨by rw [hcount, Nat.zero_add], fun p => ?_⟩
      rw [Device.mem_peers, hdevice p.publicKey]
      split
      · rename_i hswept
        obtain ⟨q, hq, hours, hkey⟩ := hswept
        constructor
        · intro h
          exact absurd h (by simp)
        · rintro ⟨hp, hnot⟩
          have hnets : q.allowedIPs = p.allowedIPs := by
            have hlookup := Device.mem_peers.mp hq
            rw [hkey, Device.mem_peers.mp hp] at hlookup
            exact (Option.some.inj hlookup).symm
          rw [hnets, hnot] at hours
          exact absurd hours (by simp)
      · rename_i hkept
        rw [Device.mem_peers]
        constructor
        · intro h
          refine ⟨h, ?_⟩
          by_contra hours
          exact hkept ⟨p, Device.mem_peers.mpr h, by simpa using hours, rfl⟩
        · exact And.left

end Sweep

section Restarts

variable [GoText.CaseTables] {cfg : Config} {c : Ipam.Cidr} {a : Ipam.Allocator}
  {registry : Peers.Registry} {tenants : TenantStore} {calls : List (Call × Oracle)}

omit [GoText.CaseTables] in
theorem ours_hostNet (hc : c.Plain) {ip : IP} (hip : c.Host ip) :
    ours [hostNet ip] c.network = true := by
  obtain ⟨hlen, hlo, hhi⟩ := hip
  have hin : contains c.network ip = true := by
    rw [Ipam.Cidr.Plain.contains_iff hc hlen]
    exact ⟨le_of_lt hlo, le_of_lt hhi⟩
  have hsize : maskSize (cidrMask 32 4) = (32, 32) := by decide
  simp [ours, hostNet, hsize, hin]

theorem covered_run (hnew : Ipam.new c = .ok a)
    (hrun : Server.Serves cfg (fun _ l => l.2.Reliable) (.start a ∅ registry tenants) calls) :
    Covered (Server.serveAll cfg (.start a ∅ registry tenants) calls) := by
  have hinv := hrun.invariant
    (fun s => Covered s ∧ LeaseBook.Balanced {text a.serverIP} s.book)
    (fun s l h hω => ⟨h.1.step h.2 hω, h.2.step (book_step (reliable_repeatsSucceed hω))⟩)
    ⟨fun pub nets hpub => absurd hpub (by simp [Server.start]), balanced_start hnew⟩
  exact hinv.1

/-- A peer that is on the device after a run of calls has the shape. -/
theorem ours_of_run (hc : c.Plain) (hnew : Ipam.new c = .ok a)
    (hrun : Server.Serves cfg (fun _ l => l.2.Reliable) (.start a ∅ registry tenants) calls)
    {k : Key} {nets : List IPNet}
    (hk : (Server.serveAll cfg (.start a ∅ registry tenants) calls).device.lookup k = some nets) :
    ours nets c.network = true := by
  obtain ⟨key, p, hp, -, rfl⟩ := covered_run hnew hrun k nets hk
  exact ours_hostNet hc (hosts_run hc hnew key p hp)

/-- The device as a run leaves it that is stopped in its last call. -/
def leftBehind (cfg : Config) (s : Server) (calls : List (Call × Oracle)) (last : Call × Oracle)
    (n : ℕ) : Device :=
  ((last.1.program cfg).runFor exec n last.2 (Server.serveAll cfg s calls)).device

theorem ours_of_leftBehind (hc : c.Plain) (hnew : Ipam.new c = .ok a)
    (hrun : Server.Serves cfg (fun _ l => l.2.Reliable) (.start a ∅ registry tenants) calls)
    {last : Call × Oracle} (hlast : last.2.Reliable) {n : ℕ} {p : Wg.Peer}
    (hp : p ∈ (leftBehind cfg (.start a ∅ registry tenants) calls last n).peers) :
    ours p.allowedIPs c.network = true := by
  rcases lookup_runFor (addsLast_call last.1) (Device.mem_peers.mp hp) with hbefore | hafter
  · exact ours_of_run hc hnew hrun hbefore
  · have hwhole : Server.Serves cfg (fun _ l => l.2.Reliable) (.start a ∅ registry tenants)
        (calls ++ [last]) := admissible_append.mpr ⟨hrun, hlast, trivial⟩
    apply ours_of_run hc hnew hwhole (k := p.publicKey)
    rw [Server.serveAll, run_append]
    exact hafter

/-- A run of calls whose device calls succeed, from an empty device, is stopped
after any of the actions of its last call, and peers that do not have the shape
are added, none of which shares a key or an address with another one or with
those of the run. Then a `Sweep` without an error leaves exactly the added peers,
as they are, and answers how many it removed; one with an error has removed only
peers of the shape. -/
theorem restart_sweeps_run (hc : c.Plain) (hnew : Ipam.new c = .ok a)
    (hrun : Server.Serves cfg (fun _ l => l.2.Reliable) (.start a ∅ registry tenants) calls)
    (last : Call × Oracle) (hlast : last.2.Reliable) (n : ℕ) (added : List Wg.Peer)
    (hshape : ∀ p ∈ added, ours p.allowedIPs c.network = false)
    (hadded : added.Pairwise Wg.Peer.Apart)
    (hapart : ∀ p ∈ added,
      ∀ q ∈ (leftBehind cfg (.start a ∅ registry tenants) calls last n).peers, q.Apart p)
    (a' : Ipam.Allocator) (registry' : Peers.Registry) (tenants' : TenantStore) (ω : Oracle) :
    let d := added.foldl Device.configure
      (leftBehind cfg (.start a ∅ registry tenants) calls last n)
    let swept := (sweep c.network).run exec ω (.start a' d registry' tenants')
    (swept.1.2 = true → (∀ p, p ∈ swept.2.2.device.peers ↔ p ∈ added) ∧
      swept.1.1 = d.peers.countP fun p => p ∉ swept.2.2.device.peers) ∧
    (swept.1.2 = false → ∀ p ∈ d.peers, p ∉ swept.2.2.device.peers →
      ours p.allowedIPs c.network = true) := by
  intro d swept
  have hd : ∀ p, p ∈ d.peers ↔
      p ∈ (leftBehind cfg (.start a ∅ registry tenants) calls last n).peers ∨ p ∈ added :=
    fun p => Device.mem_peers_foldl_configure hadded hapart
  constructor
  · intro hok
    obtain ⟨hcount, hleft⟩ := sweep_ok hok
    constructor
    · intro p
      rw [hleft p]
      change p ∈ d.peers ∧ _ ↔ _
      rw [hd p]
      constructor
      · rintro ⟨hrunPeer | hp, hnot⟩
        · have hours := ours_of_leftBehind hc hnew hrun hlast hrunPeer
          exact absurd (hours.symm.trans hnot) (by simp)
        · exact hp
      · intro hp
        exact ⟨Or.inr hp, hshape p hp⟩
    · rw [hcount]
      apply List.countP_congr
      intro p hp
      rw [decide_eq_true_iff, hleft p, not_and]
      constructor
      · intro hours _ hnot
        exact absurd (hours.symm.trans hnot) (by simp)
      · intro h
        simpa using h hp
  · intro _ p hp hgone
    by_contra hours
    have hforeign : Foreign (Server.start a' d registry' tenants').device c.network p.publicKey
        p.allowedIPs := ⟨Device.mem_peers.mp hp, by simpa using hours⟩
    exact hgone (Device.mem_peers.mpr (swept_foreign hforeign).2)

end Restarts

attribute [local instance] GoText.asciiTables

namespace Sample

/-- A site-to-site link under another key than those that enroll. -/
def link : Wg.Peer := ⟨⟨List.replicate 32 7, rfl⟩, [⟨[192, 168, 0, 0], cidrMask 24 4⟩]⟩

/-- Alice has enrolled, and the server stops when it has added bob's peer. -/
def stopped : Device :=
  leftBehind (config false) start [(enroll "alice" key₁, oracle true true)]
    (enroll "bob" key₂, oracle true true) 5

end Sample

/-- Two peers are on the device, one of them without an entry. The next start
removes both and leaves the link. -/
theorem half_enrolled_peer_swept :
    let d := [Sample.link].foldl Device.configure Sample.stopped
    let swept := (sweep Sample.pool.network).run exec (Sample.oracle true true)
      (.start Sample.alloc d .new (.new [] []))
    swept.1 = (2, true) ∧ ∀ p, p ∈ swept.2.2.device.peers ↔ p ∈ [Sample.link] := by
  have hapart : ∀ q ∈ Sample.stopped.peers, q.publicKey ≠ Sample.link.publicKey ∧
      ∀ net ∈ q.allowedIPs, net ∉ Sample.link.allowedIPs := by decide +kernel
  have hrun : Sample.start.Serves (Sample.config false) (fun _ l => l.2.Reliable)
      [(Sample.enroll "alice" Sample.key₁, Sample.oracle true true)] := ⟨Sample.reliable, trivial⟩
  have hswept := restart_sweeps_run (c := Sample.pool) rfl Sample.new_pool hrun
    (Sample.enroll "bob" Sample.key₂, Sample.oracle true true) Sample.reliable 5 [Sample.link]
    (by decide) (List.pairwise_singleton _ _)
    (fun p hp q hq => by
      obtain rfl := List.mem_singleton.mp hp
      exact ⟨(hapart q hq).1, fun net h₁ h₂ => (hapart q hq).2 net h₁ h₂⟩)
    Sample.alloc .new (.new [] []) (Sample.oracle true true)
  exact ⟨by decide +kernel, (hswept.1 (by decide +kernel)).1⟩

end Claimward.Api
