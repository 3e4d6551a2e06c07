import Claimward.Api.Ownership

/-!
# Peers of others on the device

The device may hold peers that this server never added. The sweep at startup
tells them by their shape and leaves them alone. Later enrollments know
nothing of them: they keep out of their way only if neither the key nor the
address they program is one of theirs.
-/

namespace Claimward.Api

open AtomicProgram AtomicProgram.Program Inet Wg Runs

/-- A peer of the device that does not have the shape of this server's. -/
def Foreign (d : Device) (pool : IPNet) (k : Key) (nets : List IPNet) : Prop :=
  d.lookup k = some nets ∧ ours nets pool = false

section Sweep

variable [GoText.CaseTables]

/-- The server after the sweep at its start. -/
def Server.swept (pool : IPNet) (ω : Oracle) (s : Server) : Server :=
  ((sweep pool).run exec ω s).2.2

theorem sweepLoop_frame (pool : IPNet) (ps : List Wg.Peer) (removed : ℕ) (ω : Oracle) (s : Server)
    {k : Key} (h : ∀ p ∈ ps, ours p.allowedIPs pool = true → p.publicKey ≠ k) :
    ((sweepLoop pool ps removed).run exec ω s).2.2.store = s.store ∧
      ((sweepLoop pool ps removed).run exec ω s).2.2.device.lookup k = s.device.lookup k := by
  induction ps generalizing removed ω s with
  | nil => exact ⟨rfl, rfl⟩
  | cons p rest ih =>
      obtain ⟨hp, hrest⟩ := List.forall_mem_cons.mp h
      cases hours : ours p.allowedIPs pool with
      | false =>
          simp only [sweepLoop, hours, Bool.false_eq_true, if_false]
          exact ih removed ω s hrest
      | true =>
          cases hok : ω.removeOk.head with
          | false => simp [sweepLoop, hours, hok]
          | true =>
              have hrun : (sweepLoop pool (p :: rest) removed).run exec ω s =
                  (sweepLoop pool rest (removed + 1)).run exec
                    { ω with removeOk := ω.removeOk.tail }
                    { s with device := s.device.removePeer p.publicKey } := by
                simp [sweepLoop, hours, hok]
              rw [hrun]
              obtain ⟨hstore, hdevice⟩ := ih (removed + 1) { ω with removeOk := ω.removeOk.tail }
                { s with device := s.device.removePeer p.publicKey } hrest
              refine ⟨hstore, hdevice.trans ?_⟩
              rw [Device.lookup_removePeer, if_neg (Ne.symm (hp hours))]

/-- The sweep leaves the store and every foreign peer alone. -/
theorem swept_foreign {pool : IPNet} {ω : Oracle} {s : Server} {k : Key} {nets : List IPNet}
    (h : Foreign s.device pool k nets) :
    (s.swept pool ω).store = s.store ∧ (s.swept pool ω).device.lookup k = some nets := by
  cases hpeers : ω.peersOk with
  | false =>
      have hrun : s.swept pool ω = s := by simp [Server.swept, sweep, hpeers]
      rw [hrun]
      exact ⟨rfl, h.1⟩
  | true =>
      have hrun : s.swept pool ω = ((sweepLoop pool s.device.peers 0).run exec ω s).2.2 := by
        simp [Server.swept, sweep, hpeers]
      have hframe : ∀ p ∈ s.device.peers, ours p.allowedIPs pool = true → p.publicKey ≠ k := by
        rintro p hp hours rfl
        have hnets : p.allowedIPs = nets :=
          Option.some.inj ((Device.mem_peers.mp hp).symm.trans h.1)
        rw [hnets, h.2] at hours
        exact absurd hours (by simp)
      rw [hrun]
      obtain ⟨hstore, hdevice⟩ := sweepLoop_frame pool s.device.peers 0 ω s hframe
      exact ⟨hstore, hdevice.trans h.1⟩

end Sweep

/-- The given peers are on the device as they were, and no entry has a key or
an address of theirs. -/
structure Apart (F : Key → List IPNet → Prop) (s : Server) : Prop where
  device : ∀ {k nets}, F k nets → s.device.lookup k = some nets
  entries : ∀ {key p k nets}, s.store.get key = some p → F k nets →
    ¬ Spells p k ∧ hostNet p.ip ∉ nets

section Steps

variable {F : Key → List IPNet → Prop} {s : Server}

theorem Apart.put (h : Apart F s) {p : Peer} {pub : Key} {a : Ipam.Allocator}
    (hp : Spells p pub) (hpub : ∀ k nets, F k nets → pub ≠ k)
    (hip : ∀ k nets, F k nets → hostNet p.ip ∉ nets) :
    Apart F { s with
      alloc := a, device := s.device.addPeer pub p.ip, store := s.store.put p } := by
  constructor
  · intro k nets hF
    exact Device.lookup_addPeer_of_not_mem (Ne.symm (hpub k nets hF)) (h.device hF)
      (hip k nets hF)
  · intro key q k nets hq hF
    rcases Store.get_put_eq_some.mp hq with ⟨-, rfl⟩ | ⟨-, hold⟩
    · refine ⟨fun hspell => hpub k nets hF ?_, hip k nets hF⟩
      exact Except.ok.inj (hp.symm.trans hspell)
    · exact h.entries hold hF

theorem Apart.dropAll (h : Apart F s) {c : Call} {ω : Oracle} :
    Apart F (s.dropAll (c.dropped ω s) ω.removeOk) := by
  constructor
  · intro k nets hF
    rw [lookup_dropAll_of_ne fun p hp => (h.entries (get_of_mem_dropped hp) hF).1]
    exact h.device hF
  · intro key p k nets hp hF
    exact h.entries (get_dropAll_eq_some.mp hp).1 hF

theorem Apart.renew (h : Apart F s) (key : String) (expiry : Time) :
    Apart F { s with store := (s.store.renew key expiry).2 } := by
  refine ⟨h.device, ?_⟩
  intro key' q k nets hq hF
  obtain ⟨p, hp, hqp⟩ := Store.get_of_get_renew hq
  have hentry := h.entries hp hF
  rw [hqp]
  exact hentry

variable [GoText.CaseTables] {cfg : Config}

/-- No enrollment that passes its checks names the key of one of the given
peers, and none is about to take an address of theirs from the pool. -/
def Spares (cfg : Config) (F : Key → List IPNet → Prop) (s : Server) (l : Call × Oracle) : Prop :=
  ∀ claims req pub expiry tenantID, l.1 = .enroll claims (.ok req) →
    Admitted cfg s l.2.clock claims req pub expiry tenantID → ∀ k nets, F k nets →
      pub ≠ k ∧ (s.store.get req.publicKey = none → ∀ ip, s.alloc.free = some ip →
        hostNet ip ∉ nets)

theorem Apart.step (h : Apart F s) {l : Call × Oracle} (hl : Spares cfg F s l) :
    Apart F (s.serve cfg l) := by
  obtain ⟨c, ω⟩ := l
  obtain ⟨r, s', hs', heff⟩ := exists_effect cfg ω s c
  rw [hs']
  cases heff with
  | idle hr => exact h
  | install hr => exact ⟨h.device, h.entries⟩
  | tenants hkeep hr => exact ⟨h.device, h.entries⟩
  | disown hadm hget hown hfail hr => exact ⟨h.device, h.entries⟩
  | drop hr => exact h.dropAll
  | renew hget hown hmember hlease => exact h.renew _ _
  | @reassign claims req pub expiry tenantID existing r hadm hget hown hadd at' hr =>
      have hspare := hl claims req pub expiry tenantID rfl hadm
      exact h.put (p := entry claims req expiry tenantID existing.ip at') hadm.parsed
        (fun k nets hF => (hspare k nets hF).1) (fun k nets hF => (h.entries hget hF).2)
  | @assign claims req pub expiry tenantID ip r hadm hget hfree hadd at' hr =>
      have hspare := hl claims req pub expiry tenantID rfl hadm
      exact h.put (p := entry claims req expiry tenantID ip at') hadm.parsed
        (fun k nets hF => (hspare k nets hF).1)
        (fun k nets hF => (hspare k nets hF).2 hget ip hfree)

/-- From a start on any device, over a sweep, calls that spare the foreign
peers, a restart and its sweep, every foreign peer keeps its allowed IPs. -/
theorem foreign_peers_kept (pool : IPNet) (d : Device) (a a' : Ipam.Allocator)
    (registry registry' : Peers.Registry) (tenants tenants' : TenantStore) (ω ω' : Oracle)
    (calls : List (Call × Oracle))
    (hrun : Server.Serves cfg (Spares cfg (Foreign d pool))
      ((Server.start a d registry tenants).swept pool ω) calls)
    (k : Key) (nets : List IPNet) (hforeign : Foreign d pool k nets) :
    ((Server.start a'
        (Server.serveAll cfg ((Server.start a d registry tenants).swept pool ω) calls).device
        registry' tenants').swept pool ω').device.lookup k = some nets := by
  have hstart : Apart (Foreign d pool) ((Server.start a d registry tenants).swept pool ω) := by
    constructor
    · intro k nets hF
      exact (swept_foreign hF).2
    · intro key p k nets hp hF
      rw [(swept_foreign hF).1] at hp
      simp [Server.start] at hp
  have hend := hrun.invariant (Apart (Foreign d pool)) (fun _ _ h hl => h.step hl) hstart
  have hforeign' : Foreign (Server.start a'
      (Server.serveAll cfg ((Server.start a d registry tenants).swept pool ω) calls).device
      registry' tenants').device pool k nets := ⟨hend.device hforeign, hforeign.2⟩
  exact (swept_foreign hforeign').2

end Steps

/-- A site-to-site link: one peer with a network outside the pool. -/
private def siteLink : Device :=
  AList.insert Sample.bytes₁ [⟨[192, 168, 0, 0], cidrMask 24 4⟩] ∅

attribute [local instance] GoText.asciiTables

/-- The server started on a device, swept. -/
private def startOn (d : Device) : Server :=
  (Server.start Sample.alloc d .new (.new ["10.80.0.0/29"] [])).swept Sample.pool.network
    (Sample.oracle true true)

theorem site_link_kept :
    (startOn ((startOn siteLink).serveAll (Sample.config false)
      [(Sample.enroll "bob" Sample.key₂, Sample.oracle true true)]).device).device.lookup
        Sample.bytes₁ = some [⟨[192, 168, 0, 0], cidrMask 24 4⟩] := by
  have hrun : (startOn siteLink).Serves (Sample.config false)
      (Spares (Sample.config false) (Foreign siteLink Sample.pool.network))
      [(Sample.enroll "bob" Sample.key₂, Sample.oracle true true)] := by
    refine ⟨?_, trivial⟩
    rintro claims req pub expiry tenantID hcall hadm k nets ⟨hlookup, -⟩
    obtain ⟨rfl, hreq⟩ := Call.enroll.inj hcall
    obtain rfl := Except.ok.inj hreq
    rw [siteLink, Table.lookup_insert_eq] at hlookup
    split at hlookup
    · rename_i hk
      obtain rfl := Option.some.inj hlookup
      constructor
      · rintro rfl
        have hparsed := hadm.parsed
        rw [hk] at hparsed
        revert hparsed
        decide +kernel
      · intro _ ip _ hmem
        have hmask : cidrMask 32 4 = cidrMask 24 4 :=
          congrArg IPNet.mask (List.mem_singleton.mp hmem)
        exact absurd hmask (by decide)
    · exact absurd hlookup (by simp)
  exact foreign_peers_kept Sample.pool.network siteLink Sample.alloc Sample.alloc .new .new
    (.new ["10.80.0.0/29"] []) (.new ["10.80.0.0/29"] []) (Sample.oracle true true)
    (Sample.oracle true true) _ hrun Sample.bytes₁ _ ⟨by decide +kernel, by decide +kernel⟩

/-- A peer configured by hand with two addresses of the pool loses the one that
Bob is given, then looks like one of this server's, and is swept at the next
start. -/
theorem foreign_peer_swept :
    let d : Device := AList.insert Sample.bytes₁ [hostNet [10, 80, 0, 2], hostNet [10, 80, 0, 3]] ∅
    let s := (startOn d).serveAll (Sample.config false)
      [(Sample.enroll "bob" Sample.key₂, Sample.oracle true true)]
    ours [hostNet [10, 80, 0, 2], hostNet [10, 80, 0, 3]] Sample.pool.network = false ∧
      (startOn d).device.lookup Sample.bytes₁ =
        some [hostNet [10, 80, 0, 2], hostNet [10, 80, 0, 3]] ∧
      s.device.lookup Sample.bytes₁ = some [hostNet [10, 80, 0, 3]] ∧
      (startOn s.device).device.lookup Sample.bytes₁ = none := by
  decide +kernel

end Claimward.Api
