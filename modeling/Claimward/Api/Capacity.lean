import Claimward.Api.Addresses
import Claimward.Api.Enrolling
import Mathlib.Order.Interval.Finset.Nat

/-!
# How many peers a pool has room for

A pool has no use for its first and its last address, and one more is the
gateway's. The rest is room for peers, and all of it: an enrollment is turned
away for want of an address exactly when that many peers are enrolled.
-/

namespace Claimward.Ipam

open Inet

variable {c : Cidr} {a : Allocator}

/-- How many peers the pool has room for. -/
def Cidr.room (c : Cidr) : ℕ := c.size - 3

theorem serverIP_of_new (h : new c = .ok a) : a.serverIP = firstHost c.network := by
  unfold new at h
  split at h
  · exact absurd h (by simp)
  · obtain rfl := Except.ok.inj h
    rfl

/-- In a pool of four addresses or more the gateway has a host address. -/
theorem Cidr.Plain.host_firstHost (hc : c.Plain) (hones : c.ones ≤ 30) :
    c.Host (firstHost c.network) := by
  have hsize : 2 ^ 2 ≤ c.size := Nat.pow_le_pow_right (by decide) (by omega)
  have hlt := Plain.broadcastValue_lt hc
  have hlast : c.broadcastValue = c.netValue + (c.size - 1) := rfl
  have hvalue : value (firstHost c.network) = c.netValue + 1 := by
    rw [Plain.value_firstHost hc, Nat.mod_eq_of_lt (by omega)]
  refine ⟨Plain.length_firstHost hc, ?_, ?_⟩
  · omega
  · omega

end Claimward.Ipam

namespace Claimward.Api

open AtomicProgram AtomicProgram.Program Inet Wg Peers Runs

/-- The numbers of the entries' addresses. -/
def Server.numbers (s : Server) : Finset ℕ := (s.store.list.map fun p => value p.ip).toFinset

/-- The state of a server that has kept its books: every entry has a host address
of the pool, and besides theirs only the gateway's address is used. -/
structure Server.Kept (c : Ipam.Cidr) (s : Server) : Prop where
  network : s.alloc.network = c.network
  host : ∀ k p, s.store.get k = some p → c.Host p.ip
  balanced : LeaseBook.Balanced {text (Ipam.firstHost c.network)} s.book

namespace Server.Kept

variable {c : Ipam.Cidr} {s : Server}

theorem mem_numbers {v : ℕ} :
    v ∈ s.numbers ↔ ∃ k p, s.store.get k = some p ∧ value p.ip = v := by
  simp only [numbers, List.mem_toFinset, List.mem_map]
  constructor
  · rintro ⟨p, hp, rfl⟩
    exact ⟨p.publicKey, p, Store.mem_list.mp hp, rfl⟩
  · rintro ⟨k, p, hp, rfl⟩
    exact ⟨p, Store.mem_list_of_get hp, rfl⟩

theorem card_numbers (h : s.Kept c) : s.numbers.card = s.store.list.length := by
  have hnodup : (s.store.list.map fun p => value p.ip).Nodup := by
    apply List.Nodup.map_on _ (Store.nodup_keys_list (s := s.store)).of_map
    intro p hp q hq hvalue
    have hp' := Store.mem_list.mp hp
    have hq' := Store.mem_list.mp hq
    have hip : p.ip = q.ip :=
      value_injective ((h.host _ p hp').1.trans (h.host _ q hq').1.symm) hvalue
    by_contra hne
    have hkeys : p.publicKey ≠ q.publicKey := fun heq =>
      hne (Option.some.inj (hp'.symm.trans (heq ▸ hq')))
    exact distinct_of_balanced h.balanced hp' hq' hkeys hip
  rw [numbers, List.toFinset_card_of_nodup hnodup, List.length_map]

/-- Every number taken is that of a host address. -/
theorem taken_subset (h : s.Kept c) (hc : c.Plain) (hones : c.ones ≤ 30) :
    insert (value (Ipam.firstHost c.network)) s.numbers ⊆
      Finset.Ioo c.netValue c.broadcastValue := by
  intro v hv
  rw [Finset.mem_Ioo]
  rcases Finset.mem_insert.mp hv with rfl | hv
  · exact (Ipam.Cidr.Plain.host_firstHost hc hones).2
  · obtain ⟨k, p, hp, rfl⟩ := mem_numbers.mp hv
    exact (h.host k p hp).2

/-- The gateway's number is none of the entries'. -/
theorem gateway_notMem (h : s.Kept c) (hc : c.Plain) :
    value (Ipam.firstHost c.network) ∉ s.numbers := by
  intro hv
  obtain ⟨k, p, hp, hvalue⟩ := mem_numbers.mp hv
  have hip : p.ip = Ipam.firstHost c.network :=
    value_injective ((h.host k p hp).1.trans (Ipam.Cidr.Plain.length_firstHost hc).symm) hvalue
  exact h.balanced.not_fixed (Server.holds_eq_some.mpr ⟨p, hp, rfl⟩) (by rw [hip]; rfl)

/-- A host address is used if its number is taken. -/
theorem used_iff (h : s.Kept c) (hc : c.Plain) {ip : IP} (hip : ip.length = 4) :
    text ip ∈ s.alloc.used ↔ value ip ∈ insert (value (Ipam.firstHost c.network)) s.numbers := by
  have hgateway := Ipam.Cidr.Plain.length_firstHost hc
  have htaken : text ip ∈ s.alloc.used ↔ text ip = text (Ipam.firstHost c.network) ∨
      ∃ k, s.book.holds k = some (text ip) := h.balanced.taken_iff (text ip)
  rw [htaken, Finset.mem_insert, mem_numbers]
  constructor
  · rintro (heq | ⟨k, hk⟩)
    · exact Or.inl (congrArg value (text_injective hip hgateway heq))
    · obtain ⟨p, hp, heq⟩ := Server.holds_eq_some.mp hk
      exact Or.inr ⟨k, p, hp, congrArg value (text_injective (h.host k p hp).1 hip heq)⟩
  · rintro (hvalue | ⟨k, p, hp, hvalue⟩)
    · exact Or.inl (congrArg text (value_injective (hip.trans hgateway.symm) hvalue))
    · have heq : p.ip = ip := value_injective ((h.host k p hp).1.trans hip.symm) hvalue
      exact Or.inr ⟨k, Server.holds_eq_some.mpr ⟨p, hp, congrArg text heq⟩⟩

/-- The pool is exhausted if every host's number is taken. -/
theorem free_eq_none_iff (h : s.Kept c) (hc : c.Plain) :
    s.alloc.free = none ↔ Finset.Ioo c.netValue c.broadcastValue ⊆
      insert (value (Ipam.firstHost c.network)) s.numbers := by
  rw [Ipam.Allocator.free_eq_none_iff_vacant hc h.network, Ipam.Allocator.vacant,
    Finset.filter_eq_empty_iff]
  refine forall_congr' fun v => forall_congr' fun hv => ?_
  have hvalue : value (bytes 4 v) = v :=
    value_bytes (lt_trans (Finset.mem_Ioo.mp hv).2 (Ipam.Cidr.Plain.broadcastValue_lt hc))
  rw [not_not, h.used_iff hc (length_bytes 4 v), hvalue]

/-- The peers fit into the pool's room, and fill it exactly when no address is
free. -/
theorem count (h : s.Kept c) (hc : c.Plain) :
    s.store.list.length ≤ c.room ∧ (s.alloc.free = none ↔ s.store.list.length = c.room) := by
  by_cases hones : c.ones ≤ 30
  · have hsize : 2 ^ 2 ≤ c.size := Nat.pow_le_pow_right (by decide) (by omega)
    have hhosts : (Finset.Ioo c.netValue c.broadcastValue).card = c.room + 1 := by
      rw [Nat.card_Ioo, Ipam.Cidr.broadcastValue, Ipam.Cidr.room]
      omega
    have hsub := h.taken_subset hc hones
    have hcard : (insert (value (Ipam.firstHost c.network)) s.numbers).card =
        s.store.list.length + 1 := by
      rw [Finset.card_insert_of_notMem (h.gateway_notMem hc), h.card_numbers]
    constructor
    · have hle := Finset.card_le_card hsub
      omega
    · rw [h.free_eq_none_iff hc]
      constructor
      · intro hall
        have heq := congrArg Finset.card (hsub.antisymm hall)
        omega
      · intro hfull
        exact (Finset.eq_of_subset_of_card_le hsub (by omega)).ge
  · -- no host address: nobody is enrolled, and nothing is free
    have hnone : ∀ ip, ¬ c.Host ip := fun ip => Ipam.Cidr.not_host_of_le (by omega)
    have hsize : c.size ≤ 2 ^ 1 := Nat.pow_le_pow_right (by decide) (by omega)
    have hroom : c.room = 0 := Nat.sub_eq_zero_of_le (by omega)
    have hempty : s.store.list = [] := by
      apply List.eq_nil_iff_forall_not_mem.mpr
      intro p hp
      exact hnone p.ip (h.host _ p (Store.mem_list.mp hp))
    have hfree : s.alloc.free = none := by
      cases hfree : s.alloc.free with
      | none => rfl
      | some ip => exact absurd (Ipam.Allocator.free_host hc h.network hfree) (hnone ip)
    simp [hempty, hroom, hfree]

end Server.Kept

section Answers

variable [GoText.CaseTables] {cfg : Config} {claims : Claims} {req : EnrollRequest} {pub : Key}
  {expiry : Time} {tenantID : String} {ω : Oracle} {s : Server}

theorem served_enrollPeer (ip : IP) :
    ((enrollPeer cfg claims req pub expiry tenantID ip).run exec ω s).1.Served := by
  cases hadd : ω.addOk.head with
  | false =>
      rw [enrollPeer_failed _ _ _ _ _ _ _ _ hadd]
      exact Response.served_of_code (by decide)
  | true =>
      cases hroutes : s.tenants.routes tenantID with
      | none =>
          have hrun : ((enrollPeer cfg claims req pub expiry tenantID ip).run exec ω s).1 =
              .aborted := by simp [enrollPeer, hadd, hroutes]
          rw [hrun]
          exact Response.served_aborted
      | some rs =>
          obtain ⟨r, hrun⟩ : ∃ r, ((enrollPeer cfg claims req pub expiry tenantID ip).run exec
              ω s).1 = .enrolled r := by simp [enrollPeer, hadd, hroutes]
          rw [hrun]
          exact Response.served_enrolled r

/-- Past its checks, an enrollment is turned away for want of an address if its
key has none and the pool has none. -/
theorem exhausted_enrollAddress :
    ((enrollAddress cfg claims req pub expiry tenantID).run exec ω s).1.Exhausted ↔
      s.store.get req.publicKey = none ∧ s.alloc.free = none := by
  cases hget : s.store.get req.publicKey with
  | some existing =>
      refine iff_of_false ?_ (by simp)
      by_cases hown : existing.subject = claims.subject
      · have hrun : (enrollAddress cfg claims req pub expiry tenantID).run exec ω s =
            (enrollPeer cfg claims req pub expiry tenantID existing.ip).run exec ω s := by
          simp [enrollAddress, hget, hown]
        rw [hrun]
        exact served_enrollPeer existing.ip
      · have hrun : ((enrollAddress cfg claims req pub expiry tenantID).run exec ω s).1 =
            .refused 409 "key_taken" "this key is enrolled by another user" := by
          simp [enrollAddress, hget, hown]
        rw [hrun]
        exact Response.served_of_code (by decide)
  | none =>
      cases hfree : s.alloc.free with
      | none =>
          refine iff_of_true ⟨"address pool " ++ netText s.alloc.network ++ " exhausted", ?_⟩
            ⟨rfl, rfl⟩
          simp [enrollAddress, hget, Ipam.Allocator.allocate_of_exhausted hfree]
      | some ip =>
          have hrun : ((enrollAddress cfg claims req pub expiry tenantID).run exec ω s).1 =
              ((enrollPeer cfg claims req pub expiry tenantID ip).run exec ω { s with
                alloc := { s.alloc with used := insert (text ip) s.alloc.used } }).1 := by
            simp [enrollAddress, hget, Ipam.Allocator.allocate_of_free hfree]
          rw [hrun]
          exact iff_of_false (served_enrollPeer ip) (by simp)

/-- What the registration check answers is the expiry it lets a lease have. -/
theorem run_registered_eq_some_iff (key : String) :
    ((registered cfg key claims (ω.clock.head + cfg.leaseTTL)).run exec
        { ω with clock := ω.clock.tail } s).1 = some expiry ↔
      Leased cfg s.registry key claims ω.clock expiry := by
  by_cases hpeers : cfg.usePeers = true
  · simp [registered, Leased, hpeers]
  · simp [registered, Leased, hpeers, eq_comm]

/-- An enrollment fails one of its checks with an early answer, or goes on from
the store as one that has passed them. -/
theorem enroll_cases (cfg : Config) (claims : Claims) (req : EnrollRequest) (ω : Oracle)
    (s : Server) :
    (((Call.enroll claims (.ok req)).response cfg ω s).Early ∧
        ∀ pub expiry tenantID, ¬ Admitted cfg s ω.clock claims req pub expiry tenantID) ∨
      ∃ pub expiry tenantID clock, Admitted cfg s ω.clock claims req pub expiry tenantID ∧
        ((Call.enroll claims (.ok req)).program cfg).run exec ω s =
          (enrollAddress cfg claims req pub expiry tenantID).run exec
            { ω with clock := clock } s := by
  cases hkey : parseKey req.publicKey with
  | error msg =>
      refine Or.inl ⟨?_, fun pub expiry tenantID hadm => ?_⟩
      · simp [Call.response, Call.program, handleEnroll, hkey, Response.Early]
      · exact absurd (hkey.symm.trans hadm.parsed) (by simp)
  | ok pub =>
      obtain ⟨answer, clock, hreg, hleased⟩ := run_registered cfg claims s ω req.publicKey
      have hanswer : ∀ expiry, Leased cfg s.registry req.publicKey claims ω.clock expiry →
          answer = some expiry := by
        intro expiry hlease
        rw [← run_registered_eq_some_iff, hreg] at hlease
        exact hlease
      cases answer with
      | none =>
          refine Or.inl ⟨?_, fun pub expiry tenantID hadm => ?_⟩
          · simp [Call.response, Call.program, handleEnroll, hkey, run_bind, hreg, Response.Early]
          · exact absurd (hanswer expiry hadm.leased) (by simp)
      | some expiry =>
          have hchosen : ((Call.enroll claims (.ok req)).program cfg).run exec ω s =
              (enrollChosen cfg claims req pub expiry
                (pickTenant req.tenant (s.tenants.for claims.tenancy))).run exec
                  { ω with clock := clock } s := by
            cases hpick : pickTenant req.tenant (s.tenants.for claims.tenancy)
            all_goals simp [Call.program, handleEnroll, hkey, run_bind, hreg, chooseTenant, hpick,
              enrollChosen]
          rcases enrollChosen_cases pub expiry (s.tenants.for claims.tenancy) with
            ⟨r, hearly, heq⟩ | ⟨tenantID, hpick, heq⟩
          · refine Or.inl ⟨?_, fun pub' expiry' tenantID hadm => ?_⟩
            · rw [Call.response, hchosen, heq]
              exact hearly
            · rw [hadm.tenant] at heq
              exact absurd heq (by simp [enrollChosen, enrollAddress])
          · rw [heq] at hchosen
            exact Or.inr ⟨pub, expiry, tenantID, clock, ⟨hkey, hleased expiry rfl, hpick⟩, hchosen⟩

end Answers

section Runs

variable [GoText.CaseTables] {cfg : Config} {c : Ipam.Cidr} {a : Ipam.Allocator}
  {device : Device} {registry : Registry} {tenants : TenantStore} {calls : List (Call × Oracle)}

theorem Server.Kept.serve {s : Server} {l : Call × Oracle} (h : s.Kept c) (hc : c.Plain)
    (hok : RepeatsSucceed cfg s l) : (s.serve cfg l).Kept c where
  network := (network_step s l).trans h.network
  host := (hosts_step hc l ⟨h.network, h.host⟩).2
  balanced := h.balanced.step (book_step hok)

omit [GoText.CaseTables] in
theorem kept_start (hnew : Ipam.new c = .ok a) :
    (Server.start a device registry tenants).Kept c where
  network := (Ipam.new_eq_ok hnew).1
  host := by simp [Server.start]
  balanced := Ipam.serverIP_of_new hnew ▸ balanced_start hnew

theorem kept_run (hc : c.Plain) (hnew : Ipam.new c = .ok a)
    (hrun : Server.Serves cfg (RepeatsSucceed cfg) (.start a device registry tenants) calls) :
    (Server.serveAll cfg (.start a device registry tenants) calls).Kept c :=
  hrun.invariant (fun s => s.Kept c) (fun _ _ h hok => h.serve hc hok) (kept_start hnew)

/-- When a server that has kept its books answers that its pool is exhausted. -/
theorem Server.Kept.exhausted_iff {s : Server} (h : s.Kept c) (hc : c.Plain) (claims : Claims)
    (req : EnrollRequest) (ω : Oracle) :
    ((Call.enroll claims (.ok req)).response cfg ω s).Exhausted ↔
      (∃ pub expiry tenantID, Admitted cfg s ω.clock claims req pub expiry tenantID) ∧
        s.store.get req.publicKey = none ∧ s.store.list.length = c.room := by
  obtain ⟨-, hfull⟩ := h.count hc
  rcases enroll_cases cfg claims req ω s with ⟨hearly, hnot⟩ |
    ⟨pub, expiry, tenantID, clock, hadm, hpassed⟩
  · refine iff_of_false hearly.served ?_
    rintro ⟨⟨pub, expiry, tenantID, hadm⟩, -⟩
    exact hnot pub expiry tenantID hadm
  · rw [Call.response, hpassed, exhausted_enrollAddress, hfull]
    exact ⟨fun h => ⟨⟨pub, expiry, tenantID, hadm⟩, h⟩, fun h => h.2⟩

/-- **The pool is used to the last address.** In every run in which the device
refuses no repeated enrollment, there are never more peers than the pool has room
for, and an enrollment is answered that the pool is exhausted exactly when it
has passed its checks, its key has no entry and the pool is full. -/
theorem pool_used_up (hc : c.Plain) (hnew : Ipam.new c = .ok a)
    (hrun : Server.Serves cfg (RepeatsSucceed cfg) (.start a device registry tenants) calls) :
    let s := Server.serveAll cfg (.start a device registry tenants) calls
    s.store.list.length ≤ c.room ∧
      ∀ claims req ω, ((Call.enroll claims (.ok req)).response cfg ω s).Exhausted ↔
        (∃ pub expiry tenantID, Admitted cfg s ω.clock claims req pub expiry tenantID) ∧
          s.store.get req.publicKey = none ∧ s.store.list.length = c.room := by
  intro s
  have hkept : s.Kept c := kept_run hc hnew hrun
  exact ⟨(hkept.count hc).1, fun claims req ω => hkept.exhausted_iff hc claims req ω⟩

end Runs

/-- Five peers in a pool of eight addresses. -/
private def fullHouse : List (Call × Oracle) :=
  [Sample.key₁, Sample.key₂, Sample.key₃, "AwAAAAAAAAAAAAAAAAAAAAAAAAAAAAAAAAAAAAAAAAA=",
    "BAAAAAAAAAAAAAAAAAAAAAAAAAAAAAAAAAAAAAAAAAA="].map fun key =>
      (Sample.enroll "alice" key, Sample.oracle true true)

private def sixthKey : String := "BQAAAAAAAAAAAAAAAAAAAAAAAAAAAAAAAAAAAAAAAAA="

attribute [local instance] GoText.asciiTables

theorem sixth_peer_turned_away :
    let s := Sample.start.serveAll (Sample.config false) fullHouse
    s.store.list.length = Sample.pool.room ∧
      ((Sample.enroll "bob" sixthKey).response (Sample.config false)
        (Sample.oracle true true) s).Exhausted := by
  have hok : ∀ s call, RepeatsSucceed (Sample.config false) s (call, Sample.oracle true true) :=
    fun s call => AddsSucceed.repeatsSucceed fun _ => rfl
  have hrun : Sample.start.Serves (Sample.config false) (RepeatsSucceed (Sample.config false))
      fullHouse := ⟨hok _ _, hok _ _, hok _ _, hok _ _, hok _ _, trivial⟩
  have hlength : (Sample.start.serveAll (Sample.config false) fullHouse).store.list.length =
      Sample.pool.room := by decide +kernel
  have hkey : parseKey sixthKey = .ok ⟨5 :: List.replicate 31 0, rfl⟩ := by decide +kernel
  have hplain : Sample.pool.Plain := rfl
  refine ⟨hlength, ((pool_used_up hplain Sample.new_pool hrun).2 _ _ _).mpr ⟨?_, ?_, hlength⟩⟩
  · exact ⟨_, 3600, "default", hkey, rfl, by decide +kernel⟩
  · decide +kernel

end Claimward.Api
