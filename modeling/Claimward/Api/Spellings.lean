import Claimward.Api.Capacity
import Claimward.Wg.Spelling
import Mathlib.Data.Fintype.BigOperators

/-!
# One key, many entries

The store files its entries by the texts of their keys, and the device by the
keys. The two theorems say how far that can come apart where no registry tells
which texts there are. Texts without line breaks give a key four entries at most.
With line breaks there is no bound but the pool: one caller with one key can take
every address that is left.
-/

namespace Claimward.Api

open AtomicProgram AtomicProgram.Program Inet Wg Peers Runs Base64

/-- The entries whose text is of the key and has no line breaks. -/
def Server.plainEntries (s : Server) (pub : Key) : List Peer :=
  s.store.list.filter fun p =>
    parseKey p.publicKey = .ok pub ∧ unbroken p.publicKey.toList = p.publicKey.toList

theorem length_plainEntries_le (s : Server) (pub : Key) : (s.plainEntries pub).length ≤ 4 := by
  have hnodup : ((s.plainEntries pub).map Peer.publicKey).Nodup :=
    (Store.nodup_keys_list (s := s.store)).sublist (List.filter_sublist.map _)
  have hsub : ((s.plainEntries pub).map Peer.publicKey).toFinset ⊆
      Finset.univ.image fun low => String.ofList (pub.spelling low) := by
    intro t ht
    obtain ⟨p, hp, rfl⟩ := List.mem_map.mp (List.mem_toFinset.mp ht)
    obtain ⟨-, hp⟩ := List.mem_filter.mp hp
    obtain ⟨hparse, hplain⟩ := of_decide_eq_true hp
    obtain ⟨low, hlow⟩ := parseKey_eq_ok_iff_spelling.mp hparse
    refine Finset.mem_image.mpr ⟨low, Finset.mem_univ low, ?_⟩
    rw [← hlow, hplain, String.ofList_toList]
  calc (s.plainEntries pub).length
      = ((s.plainEntries pub).map Peer.publicKey).toFinset.card := by
        rw [List.toFinset_card_of_nodup hnodup, List.length_map]
    _ ≤ (Finset.univ.image fun low => String.ofList (pub.spelling low)).card :=
        Finset.card_le_card hsub
    _ ≤ (Finset.univ : Finset (Fin 4)).card := Finset.card_image_le
    _ = 4 := Finset.card_fin 4

section Parsed

variable [GoText.CaseTables] {cfg : Config}

/-- Every entry is filed under the text of a key. -/
def Server.Parsed (s : Server) : Prop :=
  ∀ k p, s.store.get k = some p → ∃ pub, parseKey k = .ok pub

omit [GoText.CaseTables] in
theorem Server.Parsed.put {s : Store} {q : Peer} {pub : Key}
    (h : ∀ k p, s.get k = some p → ∃ pub, parseKey k = .ok pub)
    (hq : parseKey q.publicKey = .ok pub) (k : String) (p : Peer)
    (hp : (s.put q).get k = some p) : ∃ pub, parseKey k = .ok pub := by
  rcases Store.get_put_eq_some.mp hp with ⟨rfl, -⟩ | ⟨-, hp⟩
  · exact ⟨pub, hq⟩
  · exact h k p hp

theorem Server.Parsed.serve {s : Server} (h : s.Parsed) (l : Call × Oracle) :
    (s.serve cfg l).Parsed := by
  obtain ⟨c, ω⟩ := l
  obtain ⟨r, s', hs', heff⟩ := exists_effect cfg ω s c
  rw [hs']
  cases heff with
  | idle hr => exact h
  | install hr => exact h
  | tenants hkeep hr => exact h
  | disown hadm hget hown hfail hr => exact h
  | drop hr =>
      intro k p hp
      exact h k p (get_dropAll_eq_some.mp hp).1
  | reassign hadm hget hown hadd enrolledAt hr => exact Parsed.put h hadm.parsed
  | assign hadm hget hfree hadd enrolledAt hr => exact Parsed.put h hadm.parsed
  | renew hget hown hmember hlease =>
      intro k p hp
      obtain ⟨q, hq, -⟩ := Store.get_of_get_renew hp
      exact h k q hq

/-- **A key has four entries at most, line breaks apart.** Whatever is called in
whatever order, and whatever the device does: every entry is under a spelling of a
key, and of those without line breaks a key has four at most. -/
theorem entries_spell_keys (a : Ipam.Allocator) (device : Device) (registry : Registry)
    (tenants : TenantStore) (calls : List (Call × Oracle)) :
    let s := Server.serveAll cfg (.start a device registry tenants) calls
    (∀ k p, s.store.get k = some p →
        ∃ (pub : Key) (low : Fin 4), unbroken k.toList = pub.spelling low) ∧
      ∀ pub, (s.plainEntries pub).length ≤ 4 := by
  intro s
  have hstart : (Server.start a device registry tenants).Parsed := by
    intro k p hp
    exact absurd hp (by simp [Server.start])
  have hparsed : s.Parsed := run_invariant Server.Parsed (fun s l h => h.serve l) hstart calls
  refine ⟨fun k p hp => ?_, length_plainEntries_le s⟩
  obtain ⟨pub, hpub⟩ := hparsed k p hp
  exact ⟨pub, parseKey_eq_ok_iff_spelling.mp hpub⟩

end Parsed

section Filling

theorem Store.length_list_put {s : Store} {p : Peer} (h : s.get p.publicKey = none) :
    (s.put p).list.length = s.list.length + 1 := by
  have hnew : p.publicKey ∉ s.peers := AList.lookup_eq_none.mp h
  rw [Store.list, Store.put, Table.values, AList.entries_insert_of_notMem hnew, List.map_cons,
    List.length_cons]
  rfl

/-- A key has texts that no entry has, and enough of them that are not long. -/
theorem exists_fresh_texts (s : Store) (k : Key) {m n : ℕ} (hn : s.list.length + n ≤ 2 ^ m) :
    ∃ texts : List String, texts.length = n ∧ texts.Nodup ∧ ∀ t ∈ texts,
      parseKey t = .ok k ∧ t.length = k.string.length + m ∧ s.get t = none := by
  let rows : Finset String := Finset.univ.image (k.broken : (Fin m → Bool) → String)
  have hrows : rows.card = 2 ^ m := by
    rw [Finset.card_image_of_injective _ (k.broken_injective m), Finset.card_univ,
      Fintype.card_fun, Fintype.card_bool, Fintype.card_fin]
  have htaken : (s.list.map Peer.publicKey).toFinset.card ≤ s.list.length :=
    (List.toFinset_card_le _).trans (List.length_map _).le
  have hfresh := Finset.le_card_sdiff (s.list.map Peer.publicKey).toFinset rows
  obtain ⟨texts, hsub, hcard⟩ := Finset.exists_subset_card_eq (n := n) (le_trans (by omega) hfresh)
  refine ⟨texts.toList, by rw [Finset.length_toList, hcard], texts.nodup_toList, ?_⟩
  intro t ht
  obtain ⟨hrow, hnew⟩ := Finset.mem_sdiff.mp (hsub (Finset.mem_toList.mp ht))
  obtain ⟨breaks, -, rfl⟩ := Finset.mem_image.mp hrow
  refine ⟨parseKey_broken k breaks, k.length_broken breaks, ?_⟩
  by_contra hget
  obtain ⟨p, hp⟩ := Option.ne_none_iff_exists'.mp hget
  apply hnew
  rw [List.mem_toFinset, List.mem_map]
  exact ⟨p, Store.mem_list_of_get hp, Store.key_of_get hp⟩

variable [GoText.CaseTables] {cfg : Config} {c : Ipam.Cidr} {s : Server} {k : Key}
  {claims : Claims} {req : EnrollRequest} {ω : Oracle}

/-- An enrollment under a text that has no entry. -/
theorem serve_enroll_fresh {expiry : Time} {tenantID : String} {ip : IP}
    (hadm : Admitted cfg s ω.clock claims req k expiry tenantID)
    (hget : s.store.get req.publicKey = none) (hfree : s.alloc.free = some ip)
    (hok : ω.addOk.head = true) :
    ∃ expiry tenantID enrolledAt, s.serve cfg (.enroll claims (.ok req), ω) = { s with
      alloc := { s.alloc with used := insert (text ip) s.alloc.used }
      device := s.device.addPeer k ip
      store := s.store.put (entry claims req expiry tenantID ip enrolledAt) } := by
  rcases enroll_cases cfg claims req ω s with ⟨-, hnot⟩ |
    ⟨pub, expiry, tenantID, clock, hadm', hpassed⟩
  · exact absurd hadm (hnot k _ _)
  · obtain rfl : k = pub := Except.ok.inj (hadm.parsed.symm.trans hadm'.parsed)
    refine ⟨expiry, tenantID, clock.head, ?_⟩
    have hrun : (enrollAddress cfg claims req k expiry tenantID).run exec
        { ω with clock := clock } s = (enrollPeer cfg claims req k expiry tenantID ip).run exec
          { ω with clock := clock }
          { s with alloc := { s.alloc with used := insert (text ip) s.alloc.used } } := by
      simp [enrollAddress, hget, Ipam.Allocator.allocate_of_free hfree]
    change (((Call.enroll claims (.ok req)).program cfg).run exec ω s).2.2 = _
    rw [hpassed, hrun]
    have hadd : ({ ω with clock := clock } : Oracle).addOk.head = true := hok
    exact (enrollPeer_ok _ _ _ _ _ _ _ _ hadd).1

/-- From `s` to `s'` one address is taken, for an entry of `k` under the text `t`. -/
structure TakesOne (c : Ipam.Cidr) (k : Key) (t : String) (s s' : Server) : Prop where
  network : s'.alloc.network = s.alloc.network
  tenants : s'.tenants = s.tenants
  vacant : (s'.alloc.vacant c).card = (s.alloc.vacant c).card - 1
  entries : s'.store.list.length = s.store.list.length + 1
  others : ∀ t', t' ≠ t → s'.store.get t' = s.store.get t'
  device : ∀ pub, pub ≠ k → (s'.device.lookup pub).isSome = (s.device.lookup pub).isSome

/-- An enrollment that passes its checks, under a text that has no entry, takes an
address as long as one is free. -/
theorem takesOne_enroll (hc : c.Plain) {expiry : Time} {tenantID : String}
    (hadm : Admitted cfg s ω.clock claims req k expiry tenantID)
    (hget : s.store.get req.publicKey = none) (hnet : s.alloc.network = c.network)
    (hroom : 0 < (s.alloc.vacant c).card) (hok : ω.addOk.head = true) :
    TakesOne c k req.publicKey s (s.serve cfg (.enroll claims (.ok req), ω)) := by
  obtain ⟨ip, hfree⟩ := Ipam.Allocator.exists_free hc hnet hroom
  obtain ⟨expiry, tenant, enrolledAt, hserve⟩ := serve_enroll_fresh hadm hget hfree hok
  rw [hserve]
  refine ⟨rfl, rfl, Ipam.Allocator.card_vacant_insert hc hnet hfree,
    Store.length_list_put (p := entry claims req expiry tenant ip enrolledAt) hget, ?_, ?_⟩
  · intro t' hne
    rw [Store.get_put]
    exact if_neg hne
  · intro pub hne
    rw [Device.lookup_addPeer, if_neg hne, Option.isSome_map]

/-- Enrollments of one key under fresh texts take the free addresses as far as they
go, and put no peer on the device but the key's. -/
theorem fill (hc : c.Plain) (hpeers : cfg.usePeers = false) (info : DeviceInfo)
    {asked tenantID : String} {ω : String → Oracle} (hok : ∀ t, (ω t).addOk.head = true)
    {texts : List String} (hnodup : texts.Nodup) (hparse : ∀ t ∈ texts, parseKey t = .ok k)
    (hfresh : ∀ t ∈ texts, s.store.get t = none) (hnet : s.alloc.network = c.network)
    (hroom : texts.length ≤ (s.alloc.vacant c).card)
    (hmember : pickTenant asked (s.tenants.for claims.tenancy) = .chosen tenantID) :
    let s' := s.serveAll cfg (texts.map fun t => (.enroll claims (.ok ⟨t, info, asked⟩), ω t))
    (s'.alloc.vacant c).card = (s.alloc.vacant c).card - texts.length ∧
      s'.store.list.length = s.store.list.length + texts.length ∧
      ∀ pub, pub ≠ k → (s'.device.lookup pub).isSome = (s.device.lookup pub).isSome := by
  induction texts generalizing s with
  | nil => exact ⟨rfl, rfl, fun _ _ => rfl⟩
  | cons t texts ih =>
      obtain ⟨ht, hnodup⟩ := List.nodup_cons.mp hnodup
      obtain ⟨hkey, hparse⟩ := List.forall_mem_cons.mp hparse
      obtain ⟨hget, hfresh⟩ := List.forall_mem_cons.mp hfresh
      rw [List.length_cons] at hroom
      have hadm : Admitted cfg s (ω t).clock claims ⟨t, info, asked⟩ k
          ((ω t).clock.head + cfg.leaseTTL) tenantID :=
        ⟨hkey, by simp [Leased, hpeers], hmember⟩
      have hone := takesOne_enroll hc hadm hget hnet (by omega) (hok t)
      have hfresh' : ∀ t' ∈ texts, (s.serve cfg (.enroll claims (.ok ⟨t, info, asked⟩),
          ω t)).store.get t' = none := by
        intro t' ht'
        rw [hone.others t' (ne_of_mem_of_not_mem ht' ht)]
        exact hfresh t' ht'
      obtain ⟨hvacant, hentries, hdevice⟩ := ih hnodup hparse hfresh' (hone.network.trans hnet)
        (by rw [hone.vacant]; omega) (by rw [hone.tenants]; exact hmember)
      rw [List.map_cons, Server.serveAll, run_cons, List.length_cons]
      refine ⟨?_, ?_, fun pub hne => (hdevice pub hne).trans (hone.device pub hne)⟩
      · rw [hvacant, hone.vacant]
        omega
      · rw [hentries, hone.entries]
        omega

/-- With no address free, every enrollment that passes its checks under a text
without an entry is turned away. -/
theorem exhausted_of_free_eq_none (hfree : s.alloc.free = none)
    (hadm : ∃ pub expiry tenantID, Admitted cfg s ω.clock claims req pub expiry tenantID)
    (hget : s.store.get req.publicKey = none) :
    ((Call.enroll claims (.ok req)).response cfg ω s).Exhausted := by
  rcases enroll_cases cfg claims req ω s with ⟨-, hnot⟩ |
    ⟨pub, expiry, tenantID, clock, -, hpassed⟩
  · obtain ⟨pub, expiry, tenantID, hadm⟩ := hadm
    exact absurd hadm (hnot pub expiry tenantID)
  · rw [Call.response, hpassed, exhausted_enrollAddress]
    exact ⟨hget, hfree⟩

/-- **One key fills the pool.** In whatever state has been reached without a
registry, a caller with one key has as many texts of it as there are free addresses,
none of them long. Enrolling them leaves no address free, and the device with no
other peer than it had; every enrollment under another text is then turned away. -/
theorem one_key_fills_pool {a : Ipam.Allocator} (hc : c.Plain) (hnew : Ipam.new c = .ok a)
    (hpeers : cfg.usePeers = false) (device : Device) (registry : Registry)
    (tenants : TenantStore) (calls : List (Call × Oracle)) (k : Key) (claims : Claims)
    (info : DeviceInfo) (asked : String) {tenantID : String}
    (hmember : pickTenant asked ((Server.serveAll cfg (.start a device registry tenants)
      calls).tenants.for claims.tenancy) = .chosen tenantID) :
    let s := Server.serveAll cfg (.start a device registry tenants) calls
    let n := (s.alloc.vacant c).card
    ∀ m, s.store.list.length + n ≤ 2 ^ m →
      ∃ texts : List String, texts.length = n ∧
        (∀ t ∈ texts, parseKey t = .ok k ∧ t.length = k.string.length + m) ∧
        ∀ ω : String → Oracle, (∀ t, (ω t).addOk.head = true) →
          let s' := s.serveAll cfg (texts.map fun t =>
            (.enroll claims (.ok ⟨t, info, asked⟩), ω t))
          s'.alloc.free = none ∧ s'.store.list.length = s.store.list.length + n ∧
            (∀ pub, pub ≠ k → (s'.device.lookup pub).isSome = (s.device.lookup pub).isSome) ∧
            ∀ claims' req ω', (∃ pub expiry tenantID,
                Admitted cfg s' ω'.clock claims' req pub expiry tenantID) →
              s'.store.get req.publicKey = none →
                ((Call.enroll claims' (.ok req)).response cfg ω' s').Exhausted := by
  intro s n m hm
  have hnetwork : ∀ ls, (Server.serveAll cfg (.start a device registry tenants)
      ls).alloc.network = c.network :=
    run_invariant (fun s => s.alloc.network = c.network)
      (fun s l h => (network_step s l).trans h) (Ipam.new_eq_ok hnew).1
  obtain ⟨texts, hlength, hnodup, htexts⟩ := exists_fresh_texts s.store k hm
  refine ⟨texts, hlength, fun t ht => ⟨(htexts t ht).1, (htexts t ht).2.1⟩, fun ω hok => ?_⟩
  obtain ⟨hcard, hentries, hdevice⟩ := fill hc hpeers info hok hnodup
    (fun t ht => (htexts t ht).1) (fun t ht => (htexts t ht).2.2) (hnetwork calls) hlength.le
    hmember
  intro s'
  have hnet' : s'.alloc.network = c.network := by
    have hall := hnetwork (calls ++ texts.map fun t => (.enroll claims (.ok ⟨t, info, asked⟩), ω t))
    rwa [Server.serveAll, run_append] at hall
  have hfree : s'.alloc.free = none := by
    rw [Ipam.Allocator.free_eq_none_iff_vacant hc hnet', ← Finset.card_eq_zero, hcard, hlength]
    exact Nat.sub_self n
  refine ⟨hfree, hentries.trans (by rw [hlength]), hdevice, fun claims' req ω' hadm hget => ?_⟩
  exact exhausted_of_free_eq_none hfree hadm hget

end Filling

attribute [local instance] GoText.asciiTables

/-- Alice has enrolled, and a second attempt with the same key has failed: the entry
is still there, and its address is free again. -/
private def refusedAgain : List (Call × Oracle) :=
  [(Sample.enroll "alice" Sample.key₁, Sample.oracle true true),
    (Sample.enroll "alice" Sample.key₁, Sample.oracle false true)]

theorem five_texts_fill_pool :
    ∃ texts : List String, texts.length = 5 ∧
      (∀ t ∈ texts, parseKey t = .ok ⟨1 :: List.replicate 31 0, rfl⟩ ∧ t.length = 47) ∧
      let s := Sample.start.serveAll (Sample.config false) (refusedAgain ++ texts.map fun t =>
        (.enroll (Sample.claims "bob") (.ok ⟨t, ⟨"laptop", "linux"⟩, ""⟩),
          Sample.oracle true true))
      s.alloc.free = none ∧ s.store.list.length = 6 := by
  have hmember : pickTenant "" ((Sample.start.serveAll (Sample.config false)
      refusedAgain).tenants.for (Sample.claims "bob").tenancy) = .chosen "default" := by
    decide +kernel
  have hvacant : ((Sample.start.serveAll (Sample.config false) refusedAgain).alloc.vacant
      Sample.pool).card = 5 := by decide +kernel
  have hentries : (Sample.start.serveAll (Sample.config false) refusedAgain).store.list.length +
      ((Sample.start.serveAll (Sample.config false) refusedAgain).alloc.vacant Sample.pool).card =
        6 := by decide +kernel
  obtain ⟨texts, hlength, hparse, hfill⟩ := one_key_fills_pool (c := Sample.pool) rfl
    Sample.new_pool (rfl : (Sample.config false).usePeers = false) ∅ .new
    (.new ["10.80.0.0/29"] []) refusedAgain ⟨1 :: List.replicate 31 0, rfl⟩ (Sample.claims "bob")
    ⟨"laptop", "linux"⟩ "" hmember 3 (hentries.le.trans (by decide))
  obtain ⟨hfree, hsix, -⟩ := hfill (fun _ => Sample.oracle true true) fun _ => rfl
  refine ⟨texts, hlength.trans hvacant, hparse, ?_⟩
  rw [Server.serveAll, run_append]
  exact ⟨hfree, hsix.trans hentries⟩

end Claimward.Api
