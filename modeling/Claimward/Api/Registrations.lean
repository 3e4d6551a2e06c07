import Claimward.Api.TakenBack

/-!
# Leases and the registrations they rest on

A lease is cut to the registration of its key when it is granted. The list is
replaced later, each time with a reconciliation, which looks at whether a key is
still registered and not at the lease its entry has. So a list that ends a
registration earlier than the list before can leave a lease that outlives it.
-/

namespace Claimward.Api

open AtomicProgram Inet Wg Peers Runs

/-- The registry takes over a new list. -/
def Call.Installs (c : Call) : Prop := ∃ l, c = .refresh (.ok l)

/-- Every entry's lease ends with the registration that the newest list has of
its key, or before. -/
def Server.WithinRegistrations (s : Server) : Prop :=
  ∀ k p, s.store.get k = some p →
    ∃ q, s.registry.byKey.lookup k = some q ∧ p.leaseExpiry ≤ q.expires

/-- Wherever a new list ends the registration of a key earlier than the list
before and `Allowed` still finds the key's entry registered, the lease of the
entry ends by then. -/
def NotShortened (s : Server) : Call × Oracle → Prop
  | (.refresh (.ok l), ω) =>
      ∀ p clock, (p, clock) ∈ asked (s.registry.install l) (ω.order.walk s.store.list) ω.clock →
        (Allowed.registry.ask (s.registry.install l) p.publicKey p.subject clock).1 = true →
        ∀ q q', s.registry.byKey.lookup p.publicKey = some q →
          l.byKey.lookup p.publicKey = some q' → q'.expires < q.expires →
          p.leaseExpiry ≤ q'.expires
  | _ => True

section Rounds

variable [GoText.CaseTables]

/-- One call as the server makes it: a list that was fetched is reconciled with
before anything else happens. -/
def Server.round (cfg : Config) (s : Server) : Call × Oracle → Server
  | (.refresh (.ok l), ω) =>
      (s.serve cfg (.refresh (.ok l), ω)).serve cfg (.reconcile .registry, ω)
  | (c, ω) => s.serve cfg (c, ω)

variable {cfg : Config} {s : Server} {l : KeyList} {ω : Oracle}

theorem round_of_not_installs {c : Call} (h : ¬ c.Installs) :
    s.round cfg (c, ω) = s.serve cfg (c, ω) := by
  unfold Server.round
  split
  · rename_i heq
    obtain ⟨rfl, -⟩ := Prod.mk.inj heq
    exact absurd ⟨_, rfl⟩ h
  · rename_i heq
    rw [heq]

omit [GoText.CaseTables] in
theorem notShortened_of_not_installs {c : Call} (h : ¬ c.Installs) : NotShortened s (c, ω) := by
  unfold NotShortened
  split
  · rename_i heq
    obtain ⟨rfl, -⟩ := Prod.mk.inj heq
    exact absurd ⟨_, rfl⟩ h
  · trivial

/-- A grant is cut to the registration, and no other call lengthens a lease or
changes the list. -/
theorem Server.WithinRegistrations.serve (hpeers : cfg.usePeers = true) (h : s.WithinRegistrations)
    {c : Call} (hc : ¬ c.Installs) : (s.serve cfg (c, ω)).WithinRegistrations := by
  obtain ⟨r, s', hserve, heff⟩ := exists_effect cfg ω s c
  rw [hserve]
  cases heff with
  | idle hr => exact h
  | tenants hkeep hr => exact h
  | disown hadm hget hown hfail hr => exact h
  | install hr => exact absurd ⟨_, rfl⟩ hc
  | drop hr =>
      intro k p hp
      rw [dropAll_registry]
      exact h k p (get_dropAll_eq_some.mp hp).1
  | reassign hadm hget hown hadd enrolledAt hr =>
      intro k p hp
      rcases Store.get_put_eq_some.mp hp with ⟨rfl, rfl⟩ | ⟨-, hold⟩
      · obtain ⟨-, q, -, -, hkey, -, -, hle⟩ := hadm.leased.registered hpeers
        exact ⟨q, hkey, hle⟩
      · exact h k p hold
  | assign hadm hget hfree hadd enrolledAt hr =>
      intro k p hp
      rcases Store.get_put_eq_some.mp hp with ⟨rfl, rfl⟩ | ⟨-, hold⟩
      · obtain ⟨-, q, -, -, hkey, -, -, hle⟩ := hadm.leased.registered hpeers
        exact ⟨q, hkey, hle⟩
      · exact h k p hold
  | renew hget hown hmember hlease =>
      intro k p hp
      rcases (Store.get_renew_eq_some hget).mp hp with ⟨rfl, rfl⟩ | ⟨-, hold⟩
      · obtain ⟨-, q, -, -, hkey, -, -, hle⟩ := hlease.registered hpeers
        exact ⟨q, hkey, hle⟩
      · exact h k p hold

/-- An entry outlasts a reconciliation with a new list exactly if `Allowed`
finds it registered. -/
theorem get_round_refresh {p : Peer} {clock : Stream' Time}
    (h : (p, clock) ∈ asked (s.registry.install l) (ω.order.walk s.store.list) ω.clock) :
    (s.round cfg (.refresh (.ok l), ω)).store.get p.publicKey = some p ↔
      (Allowed.registry.ask (s.registry.install l) p.publicKey p.subject clock).1 = true := by
  have hget : s.store.get p.publicKey = some p :=
    Store.mem_list.mp ((ω.order.perm _).mem_iff.mp (mem_of_mem_asked h))
  have hdropped := dropped_iff cfg { s with registry := s.registry.install l } ω h
  rw [← Bool.not_eq_false, ← hdropped]
  constructor
  · intro hsome hnone
    exact absurd (hsome.symm.trans hnone) (by simp)
  · intro hsome
    rw [serve_reconcile, get_dropAll] at hsome
    change (Server.serve cfg { s with registry := s.registry.install l } _).store.get _ = _
    rw [serve_reconcile, get_dropAll]
    split
    · rename_i hmem
      exact absurd (if_pos hmem) hsome
    · exact hget

theorem registry_round_refresh :
    (s.round cfg (.refresh (.ok l), ω)).registry = s.registry.install l := by
  change (Server.serve cfg { s with registry := s.registry.install l } _).registry = _
  rw [serve_reconcile, dropAll_registry]

/-- If the leases were within the registrations of the list before, they are
within those of the new list exactly if none is shortened to before a lease. -/
theorem withinRegistrations_round_iff (h : s.WithinRegistrations) :
    (s.round cfg (.refresh (.ok l), ω)).WithinRegistrations ↔
      NotShortened s (.refresh (.ok l), ω) := by
  constructor
  · intro hround p clock hasked hask q q' _ hq' _
    obtain ⟨q'', hq'', hle⟩ := hround p.publicKey p ((get_round_refresh hasked).mpr hask)
    rw [registry_round_refresh] at hq''
    obtain rfl := Option.some.inj (hq'.symm.trans hq'')
    exact hle
  · intro hshort k p hp
    have hkey := Store.key_of_get hp
    subst hkey
    have hold : s.store.get p.publicKey = some p := by
      change (Server.serve cfg { s with registry := s.registry.install l } _).store.get _ = _ at hp
      rw [serve_reconcile] at hp
      exact (get_dropAll_eq_some.mp hp).1
    obtain ⟨clock, hasked⟩ : ∃ clock, (p, clock) ∈
        asked (s.registry.install l) (ω.order.walk s.store.list) ω.clock :=
      exists_mem_asked ((ω.order.perm _).mem_iff.mpr (Store.mem_list.mpr hold))
    have hask := (get_round_refresh hasked).mp hp
    obtain ⟨-, q', hq', -, -⟩ := ask_install_iff.mp hask
    obtain ⟨q, hq, hle⟩ := h p.publicKey p hold
    rw [registry_round_refresh]
    refine ⟨q', hq', ?_⟩
    rcases lt_or_ge q'.expires q.expires with hlt | hge
    · exact hshort p clock hasked hask q q' hq hq' hlt
    · exact le_trans hle hge

/-- From a server just started, over any calls, the leases are within the
registrations right after every reconciliation with a new list exactly if no new
list shortens a registration to before the end of a lease that it leaves. -/
theorem leases_within_registrations_iff (hpeers : cfg.usePeers = true) (a : Ipam.Allocator)
    (device : Device) (tenants : TenantStore) (calls : List (Call × Oracle)) :
    Admissible (Server.round cfg)
        (fun s l => l.1.Installs → (s.round cfg l).WithinRegistrations)
        (.start a device .new tenants) calls ↔
      Admissible (Server.round cfg) NotShortened (.start a device .new tenants) calls := by
  apply admissible_iff_of_invariant Server.WithinRegistrations
  · rintro s ⟨c, ω⟩ h
    by_cases hc : c.Installs
    · obtain ⟨l, rfl⟩ := hc
      rw [← withinRegistrations_round_iff h]
      exact forall_prop_of_true ⟨l, rfl⟩
    · exact iff_of_true (fun hinst => absurd hinst hc) (notShortened_of_not_installs hc)
  · rintro s ⟨c, ω⟩ h hshort
    by_cases hc : c.Installs
    · obtain ⟨l, rfl⟩ := hc
      exact (withinRegistrations_round_iff h).mpr hshort
    · rw [round_of_not_installs hc]
      exact h.serve hpeers hc
  · intro k p hp
    simp [Server.start] at hp

end Rounds

/-- Alice's key is registered until 100 and enrolled, and a second list is
fetched. -/
private def enrolledThenListed (l : KeyList) : List (Call × Oracle) :=
  [(.refresh (.ok (Sample.list "alice")), Sample.oracle true true),
    (Sample.enroll "alice" Sample.key₁, Sample.oracle true true),
    (.refresh (.ok l), Sample.oracle true true)]

attribute [local instance] GoText.asciiTables

/-- The second list says what the first one said. -/
theorem unchanged_list_keeps_leases_within :
    Admissible (Server.round (Sample.config true))
      (fun s l => l.1.Installs → (s.round (Sample.config true) l).WithinRegistrations)
      Sample.start (enrolledThenListed (Sample.list "alice")) := by
  apply (leases_within_registrations_iff rfl Sample.alloc ∅ (.new ["10.80.0.0/29"] []) _).mpr
  refine ⟨?_, trivial, ?_, trivial⟩
  · intro p clock _ _ q q' hq _ _
    exact absurd hq (by simp [Server.start, Registry.new])
  · intro p clock _ _ q q' hq hq' hlt
    have hsame : q = q' := Option.some.inj (hq.symm.trans hq')
    exact absurd hlt (by simp [hsame])

/-- The second list has the key only until 50: the lease until 100 stays. -/
theorem shortened_registration_outlived :
    let s := run (Server.round (Sample.config true)) Sample.start
      (enrolledThenListed ⟨[⟨Sample.bytes₁, "alice", 50⟩], 100⟩)
    (s.store.get Sample.key₁).map Peer.leaseExpiry = some 100 ∧
      (s.registry.byKey.lookup Sample.key₁).map Registration.expires = some 50 := by
  decide +kernel

end Claimward.Api
