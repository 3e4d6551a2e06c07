import Claimward.Api.Ownership

/-!
# The device and the store agree

With a registry of keys only the canonical text of a key can be enrolled, so
texts and keys are in bijection and the device's peers are exactly the entries
of the store. After a reconciliation with a new list only registered keys are
left on either.
-/

namespace Claimward.Api

open AtomicProgram Inet Wg Peers Runs

/-- The peers of the device are exactly the entries of the store, each with the
address of its entry as its one allowed IP. -/
structure Mirrors (s : Server) : Prop where
  peer_of_entry : ∀ k p, s.store.get k = some p →
    ∃ pub, parseKey k = .ok pub ∧ s.device.lookup pub = some [hostNet p.ip]
  entry_of_peer : ∀ pub nets, s.device.lookup pub = some nets →
    ∃ k p, s.store.get k = some p ∧ parseKey k = .ok pub ∧ nets = [hostNet p.ip]
  injective : ∀ k₁ k₂ p₁ p₂ pub, s.store.get k₁ = some p₁ → s.store.get k₂ = some p₂ →
    parseKey k₁ = .ok pub → parseKey k₂ = .ok pub → k₁ = k₂

/-- The invariant behind it: registrations and entries are filed under the
canonical texts of their keys. -/
structure Canonical (s : Server) : Prop where
  registered : ∀ {k p}, s.registry.byKey.lookup k = some p → p.key.string = k
  entries : ∀ {k p}, s.store.get k = some p → ∃ pub : Key, pub.string = k
  device : ∀ {pub : Key} {nets}, s.device.lookup pub = some nets ↔
    ∃ p, s.store.get pub.string = some p ∧ nets = [hostNet p.ip]

theorem Canonical.mirrors {s : Server} (h : Canonical s) : Mirrors s where
  peer_of_entry := by
    intro k p hp
    obtain ⟨pub, rfl⟩ := h.entries hp
    exact ⟨pub, parseKey_string pub, h.device.mpr ⟨p, hp, rfl⟩⟩
  entry_of_peer := by
    intro pub nets hnets
    obtain ⟨p, hp, rfl⟩ := h.device.mp hnets
    exact ⟨pub.string, p, hp, parseKey_string pub, rfl⟩
  injective := by
    intro k₁ k₂ p₁ p₂ pub h₁ h₂ hk₁ hk₂
    obtain ⟨pub₁, rfl⟩ := h.entries h₁
    obtain ⟨pub₂, rfl⟩ := h.entries h₂
    rw [parseKey_string] at hk₁ hk₂
    rw [Except.ok.inj hk₁, Except.ok.inj hk₂]

section Steps

variable {s : Server}

/-- An entry with a canonical text is written, and its key programmed at an
address that no other entry has. -/
theorem Canonical.put (h : Canonical s) {p : Peer} {pub : Key} {a : Ipam.Allocator}
    (hp : pub.string = p.publicKey)
    (hip : ∀ k q, s.store.get k = some q → k ≠ p.publicKey → q.ip ≠ p.ip) :
    Canonical { s with
      alloc := a, device := s.device.addPeer pub p.ip, store := s.store.put p } := by
  refine ⟨h.registered, ?_, ?_⟩
  · intro k q hq
    rw [Store.get_put] at hq
    split at hq
    · rename_i hk
      exact ⟨pub, hp.trans hk.symm⟩
    · exact h.entries hq
  · intro k nets
    by_cases hk : k = pub
    · subst hk
      simp [Device.lookup_addPeer, Store.get_put, hp, eq_comm]
    · have hne : k.string ≠ p.publicKey := by
        rw [← hp]
        exact fun heq => hk (Key.string_injective heq)
      simp only [Device.lookup_addPeer, if_neg hk, Store.get_put, if_neg hne, ← h.device]
      constructor
      · intro hmap
        obtain ⟨old, hold, rfl⟩ := Option.map_eq_some_iff.mp hmap
        obtain ⟨q, hq, rfl⟩ := h.device.mp hold
        have hkeep := lookup_addPeer_other (s := s) hk hold (hip _ q hq hne)
        rw [Device.lookup_addPeer, if_neg hk, hmap] at hkeep
        rw [hold, ← hkeep]
      · intro hold
        obtain ⟨q, hq, rfl⟩ := h.device.mp hold
        have hkeep := lookup_addPeer_other (s := s) hk hold (hip _ q hq hne)
        rwa [Device.lookup_addPeer, if_neg hk] at hkeep

theorem Canonical.dropAll (h : Canonical s) {c : Call} {ω : Oracle} (hω : ω.Reliable) :
    Canonical (s.dropAll (c.dropped ω s) ω.removeOk) := by
  refine ⟨?_, ?_, ?_⟩
  · rw [dropAll_registry]
    exact h.registered
  · intro k p hp
    exact h.entries (get_dropAll_eq_some.mp hp).1
  · intro pub nets
    have hiff : (∃ p ∈ c.dropped ω s, parseKey p.publicKey = .ok pub) ↔
        pub.string ∈ (c.dropped ω s).map Peer.publicKey := by
      rw [List.mem_map]
      refine exists_congr fun p => and_congr_right fun hp => ?_
      obtain ⟨pub', hpub'⟩ := h.entries (get_of_mem_dropped hp)
      rw [← hpub', parseKey_string, Except.ok.injEq, Key.string_injective.eq_iff]
    rw [lookup_dropAll hω.removeOk]
    simp only [hiff, get_dropAll]
    split
    · simp
    · exact h.device

theorem Canonical.renew (h : Canonical s) (key : String) (expiry : Time) :
    Canonical { s with store := (s.store.renew key expiry).2 } := by
  refine ⟨h.registered, ?_, ?_⟩
  · intro k q hq
    obtain ⟨p, hp, -⟩ := Store.get_of_get_renew hq
    exact h.entries hp
  · intro pub nets
    rw [h.device]
    constructor
    · rintro ⟨p, hp, rfl⟩
      obtain ⟨e, he⟩ := Store.get_renew_of_get (k := key) (t := expiry) hp
      exact ⟨_, he, rfl⟩
    · rintro ⟨q, hq, rfl⟩
      obtain ⟨p, hp, hqp⟩ := Store.get_of_get_renew hq
      exact ⟨p, hp, by rw [hqp]⟩

variable [GoText.CaseTables] {cfg : Config} {fixed : Set String}

/-- With a registry, only the canonical text of a key is admitted. -/
theorem Admitted.canonical (h : Canonical s) (hpeers : cfg.usePeers = true)
    {clock : Stream' Time} {claims : Claims} {req : EnrollRequest} {pub : Key} {expiry : Time}
    {tenantID : String} (hadm : Admitted cfg s clock claims req pub expiry tenantID) :
    pub.string = req.publicKey := by
  obtain ⟨l, p, -, -, hlookup, -⟩ := hadm.leased.registered hpeers
  have hkey := h.registered hlookup
  have hparsed := hadm.parsed
  rw [← hkey, parseKey_string] at hparsed
  rw [← hkey, Except.ok.inj hparsed]

theorem Canonical.step (h : Canonical s) (hbal : LeaseBook.Balanced fixed s.book)
    (hpeers : cfg.usePeers = true) {l : Call × Oracle} (hω : l.2.Reliable) :
    Canonical (s.serve cfg l) := by
  obtain ⟨c, ω⟩ := l
  obtain ⟨r, s', hs', heff⟩ := exists_effect cfg ω s c
  rw [hs']
  cases heff with
  | idle hr => exact h
  | tenants hkeep hr => exact ⟨h.registered, h.entries, h.device⟩
  | disown hadm hget hown hfail hr => exact ⟨h.registered, h.entries, h.device⟩
  | drop hr => exact h.dropAll hω
  | install hr => exact ⟨fun hp => (KeyList.byKey_lookup hp).2, h.entries, h.device⟩
  | @reassign claims req pub expiry tenantID existing r hadm hget hown hadd at' hr =>
      apply h.put (p := entry claims req expiry tenantID existing.ip at') (a := s.alloc)
        (hadm.canonical h hpeers)
      intro k q hq hk
      have hne : q.ip ≠ existing.ip := distinct_of_balanced hbal hq hget hk
      exact hne
  | @assign claims req pub expiry tenantID ip r hadm hget hfree hadd at' hr =>
      apply h.put (p := entry claims req expiry tenantID ip at') (hadm.canonical h hpeers)
      intro k q hq _
      exact ip_ne_of_free hbal hfree hq
  | @renew claims req existing expiry hget hown hmember hlease =>
      exact h.renew req.publicKey expiry

end Steps

section Reconciliation

theorem lookup_clock_const (r : Registry) (key : String) (t : Time) :
    (r.lookup key (Stream'.const t)).2 = Stream'.const t := by
  unfold Registry.lookup
  split
  · rfl
  · split
    · rfl
    · split
      · rfl
      · split
        · rfl
        · rfl

/-- At one instant, a peer that is not rejected is registered to its subject. -/
theorem registered_of_not_rejected {r : Registry} {t : Time} {ps : List Peer} {p : Peer}
    (hp : p ∈ ps) (hkept : p ∉ Allowed.registry.rejected r ps (Stream'.const t)) :
    ∃ q, (r.lookup p.publicKey (Stream'.const t)).1 = some q ∧ q.subject = p.subject := by
  induction ps with
  | nil => exact absurd hp List.not_mem_nil
  | cons p' rest ih =>
      simp only [Allowed.rejected, Allowed.ask, lookup_clock_const] at hkept
      split at hkept
      · rename_i hallowed
        rcases List.mem_cons.mp hp with rfl | hrest
        · simpa [Option.any_eq_true] using hallowed
        · exact ih hrest hkept
      · rcases List.mem_cons.mp hp with rfl | hrest
        · exact absurd List.mem_cons_self hkept
        · exact ih hrest fun hmem => hkept (List.mem_cons_of_mem _ hmem)

variable [GoText.CaseTables] {cfg : Config}

/-- After a new list and a reconciliation with it at one instant, every entry
is registered there to its subject, and not expired. -/
theorem registered_after_reconcile {s : Server} {l : KeyList} {ω₁ ω₂ : Oracle} {t : Time}
    (hclock : ω₂.clock = Stream'.const t) {k : String} {e : Peer}
    (he : ((s.serve cfg (.refresh (.ok l), ω₁)).serve cfg
      (.reconcile .registry, ω₂)).store.get k = some e) :
    ∃ q ∈ l.peers, q.key.string = k ∧ q.subject = e.subject ∧ t < q.expires := by
  rw [serve_reconcile, serve_refresh, get_dropAll_eq_some] at he
  obtain ⟨hget, hkept⟩ := he
  have hmem : e ∈ ω₂.order.walk s.store.list :=
    (ω₂.order.perm _).mem_iff.mpr (Store.mem_list_of_get hget)
  have hnot : e ∉ Allowed.registry.rejected (s.registry.install l)
      (ω₂.order.walk s.store.list) (Stream'.const t) := by
    intro hrejected
    rw [← hclock] at hrejected
    exact hkept (Store.key_of_get hget ▸ List.mem_map_of_mem hrejected)
  obtain ⟨q, hlookup, hsubject⟩ := registered_of_not_rejected hmem hnot
  obtain ⟨-, -, -, hkey, hexpires⟩ := Registry.lookup_eq_some hlookup
  obtain ⟨hq, hstring⟩ := KeyList.byKey_lookup hkey
  exact ⟨q, hq, hstring.trans (Store.key_of_get hget), hsubject, hexpires⟩

end Reconciliation

section Runs

variable [GoText.CaseTables] {cfg : Config} {c : Ipam.Cidr} {a : Ipam.Allocator}
  {tenants : TenantStore} {calls : List (Call × Oracle)}

theorem canonical_run (hpeers : cfg.usePeers = true) (hnew : Ipam.new c = .ok a)
    (hrun : Server.Serves cfg (fun _ l => l.2.Reliable) (.start a ∅ .new tenants) calls) :
    LeaseBook.Balanced {text a.serverIP}
        (Server.serveAll cfg (.start a ∅ .new tenants) calls).book ∧
      Canonical (Server.serveAll cfg (.start a ∅ .new tenants) calls) := by
  apply hrun.invariant fun s =>
    LeaseBook.Balanced {text a.serverIP} s.book ∧ Canonical s
  · rintro s l ⟨hbal, hcanon⟩ hω
    exact ⟨hbal.step (book_step (reliable_repeatsSucceed hω)), hcanon.step hbal hpeers hω⟩
  · refine ⟨balanced_start hnew, ?_, ?_, ?_⟩
    · simp [Server.start, Registry.new]
    · simp [Server.start]
    · simp [Server.start]

/-- With a registry and a device that never fails, the device holds exactly the
entries of the store in every state, and right after a new list and a
reconciliation with it at one instant, each of its peers is registered in that
list to its entry's subject and has not expired. -/
theorem device_mirrors_store (hpeers : cfg.usePeers = true) (hnew : Ipam.new c = .ok a)
    (hrun : Server.Serves cfg (fun _ l => l.2.Reliable) (.start a ∅ .new tenants) calls) :
    Mirrors (Server.serveAll cfg (.start a ∅ .new tenants) calls) ∧
      ∀ l ω₁ ω₂ t, ω₁.Reliable → ω₂.Reliable → ω₂.clock = Stream'.const t →
        ∀ pub nets,
          (Server.serveAll cfg (.start a ∅ .new tenants)
            (calls ++ [(.refresh (.ok l), ω₁), (.reconcile .registry, ω₂)])).device.lookup pub =
              some nets →
          ∃ k e q,
            (Server.serveAll cfg (.start a ∅ .new tenants)
              (calls ++ [(.refresh (.ok l), ω₁), (.reconcile .registry, ω₂)])).store.get k =
                some e ∧
            parseKey k = .ok pub ∧ nets = [hostNet e.ip] ∧
            q ∈ l.peers ∧ q.key = pub ∧ q.subject = e.subject ∧ t < q.expires := by
  refine ⟨(canonical_run hpeers hnew hrun).2.mirrors, ?_⟩
  intro l ω₁ ω₂ t hω₁ hω₂ hclock pub nets hnets
  have hrun' : Server.Serves cfg (fun _ l => l.2.Reliable) (.start a ∅ .new tenants)
      (calls ++ [(.refresh (.ok l), ω₁), (.reconcile .registry, ω₂)]) :=
    admissible_append.mpr ⟨hrun, hω₁, hω₂, trivial⟩
  obtain ⟨e, he, rfl⟩ := (canonical_run hpeers hnew hrun').2.device.mp hnets
  have hlast := he
  simp only [Server.serveAll, run_append, run_cons, run_nil] at hlast
  obtain ⟨q, hq, hkey, hsubject, hexpires⟩ := registered_after_reconcile hclock hlast
  exact ⟨pub.string, e, q, he, parseKey_string pub, rfl, hq, Key.string_injective hkey, hsubject,
    hexpires⟩

end Runs

/-- A registered key is enrolled. -/
private def registerEnroll : List (Call × Oracle) :=
  [(.refresh (.ok (Sample.list "alice")), Sample.oracle true true),
    (Sample.enroll "alice" Sample.key₁, Sample.oracle true true)]

attribute [local instance] GoText.asciiTables

theorem registered_key_mirrored :
    (Sample.start.serveAll (Sample.config true) registerEnroll).device.lookup Sample.bytes₁ =
        some [hostNet [10, 80, 0, 2]] ∧
      Mirrors (Sample.start.serveAll (Sample.config true) registerEnroll) := by
  have hrun : Sample.start.Serves (Sample.config true) (fun _ l => l.2.Reliable)
      registerEnroll := ⟨Sample.reliable, Sample.reliable, trivial⟩
  exact ⟨by decide +kernel, (device_mirrors_store rfl Sample.new_pool hrun).1⟩

end Claimward.Api
