import Claimward.Api.Mediation
import Claimward.Api.CallEffect

/-!
# When the provider falls silent

With a registry, a lease rests on the provider's list. A provider that goes away
sends no new lists, and those it has sent expire. The theorem bounds what the
server can still hold then, however its calls overlap: every lease ends before
the latest expiry of a list, plus the time to live of one lease. The reason is
an order of actions: every call reads the clock for its lease before it looks
its key up, and the lookup refuses once the list has expired.
-/

namespace Claimward.Api

open AtomicProgram AtomicProgram.Program Inet Wg Peers Runs

/-- The server holds neither a list that outlasts the horizon nor a lease that
outlasts it by a whole time to live. -/
structure Server.Bounded (cfg : Config) (horizon : Time) (s : Server) : Prop where
  lists : ∀ l, s.registry.list = some l → l.expires ≤ horizon
  leases : ∀ k e, s.store.get k = some e → e.leaseExpiry < horizon + cfg.leaseTTL

/-- What holds of a call with a journal: the rest keeps the rule, the clock has
nothing earlier to come than what was read, and what was read before a lookup
that found its key lies before the horizon. -/
structure Paced (cfg : Config) (horizon : Time) (past : Journal) (p : Handler Response)
    (ω : Oracle) : Prop where
  mediated : ∃ c : Call, (∀ l, c = .refresh (.ok l) → l.expires ≤ horizon) ∧ Mediated cfg c p past
  forward : ω.Forward
  read : ∀ t, did .now t ∈ past → ∀ n, t ≤ ω.clock.get n
  found : ∀ newer older key q t, past = newer ++ older → did (.lookup key) (some q) ∈ newer →
    did .now t ∈ older → t < horizon

section Clocks

variable {ω : Oracle}

theorem Oracle.Forward.get_le (h : ω.Forward) {m n : ℕ} (hmn : m ≤ n) :
    ω.clock.get m ≤ ω.clock.get n :=
  monotone_nat_of_le_succ (f := ω.clock.get) h hmn

/-- A lookup takes readings from the front of the clock. -/
theorem lookup_clock (r : Registry) (key : String) (clock : Stream' Time) :
    ∃ k, ∀ n, (r.lookup key clock).2.get n = clock.get (n + k) := by
  unfold Registry.lookup
  split
  · exact ⟨0, fun n => rfl⟩
  · split
    · exact ⟨1, fun n => rfl⟩
    · split
      · exact ⟨1, fun n => rfl⟩
      · split
        · exact ⟨2, fun n => rfl⟩
        · exact ⟨2, fun n => rfl⟩

variable [GoText.CaseTables]

/-- Every action takes readings from the front of the clock. -/
theorem clock_exec (a : Action) (s : Server) :
    ∃ k, ∀ n, (exec a ω s).2.1.clock.get n = ω.clock.get (n + k) := by
  cases a with
  | now => exact ⟨1, fun n => rfl⟩
  | lookup key => exact lookup_clock s.registry key ω.clock
  | _ => exact ⟨0, fun n => rfl⟩

theorem Oracle.Forward.exec (h : ω.Forward) (a : Action) (s : Server) :
    (exec a ω s).2.1.Forward := by
  obtain ⟨k, hk⟩ := clock_exec (ω := ω) a s
  intro n
  rw [hk, hk]
  exact h.get_le (by omega)

end Clocks

section Steps

variable [GoText.CaseTables] {cfg : Config} {horizon : Time} {past : Journal} {ω : Oracle}
  {s : Server} {a : Action} {next : Reply a → Handler Response}

/-- A lookup that finds its key is made before the horizon, so what was read of
the clock before it is earlier still. -/
theorem Paced.lookup (h : Paced cfg horizon past (.act a next) ω) (hs : s.Bounded cfg horizon)
    {key : String} {q : Registration} (ha : did a (exec a ω s).1 = did (.lookup key) (some q))
    {t : Time} (ht : did .now t ∈ past) : t < horizon := by
  obtain ⟨rfl, hreply⟩ := Sigma.mk.inj ha
  obtain ⟨l, hl, hlt, -, -⟩ := Registry.lookup_eq_some (eq_of_heq hreply)
  calc t ≤ ω.clock.get 0 := h.read t ht 0
    _ < l.expires := hlt
    _ ≤ horizon := hs.lists l hl

/-- One action keeps the pace of its call. -/
theorem Paced.step (h : Paced cfg horizon past (.act a next) ω) (hs : s.Bounded cfg horizon) :
    Paced cfg horizon (did a (exec a ω s).1 :: past) (next (exec a ω s).1) (exec a ω s).2.1 where
  mediated := by
    obtain ⟨c, hc, hmediated⟩ := h.mediated
    exact ⟨c, hc, hmediated.2 _⟩
  forward := h.forward.exec a s
  read := by
    intro t ht n
    obtain ⟨k, hk⟩ := clock_exec (ω := ω) a s
    rcases List.mem_cons.mp ht with heq | ht
    · obtain ⟨rfl, hreply⟩ := Sigma.mk.inj heq
      rw [eq_of_heq hreply]
      exact h.forward.get_le (Nat.zero_le (n + 1))
    · rw [hk n]
      exact h.read t ht (n + k)
  found := by
    intro newer older key q t hsplit hq ht
    cases newer with
    | nil => exact absurd hq List.not_mem_nil
    | cons e newer =>
        obtain ⟨rfl, rfl⟩ := List.cons.inj hsplit
        rcases List.mem_cons.mp hq with heq | hq
        · exact h.lookup hs heq.symm (List.mem_append_right _ ht)
        · exact h.found newer older key q t rfl hq ht

omit [GoText.CaseTables] in
/-- A lease that was worked out at this pace is not too long. -/
theorem Paced.lease_lt {p : Handler Response} (h : Paced cfg horizon past p ω)
    (hcfg : cfg.usePeers = true) {claims : Claims} {key : String} {lease : Time}
    (hlease : LeaseFound cfg claims key lease past) : lease < horizon + cfg.leaseTTL := by
  obtain ⟨now, newer, older, hpast, hnow, -, hpeers⟩ := hlease
  obtain ⟨q, hq, -, rfl⟩ := hpeers hcfg
  have hearly : now < horizon := h.found newer older key q now hpast hq hnow
  calc min q.expires (now + cfg.leaseTTL) ≤ now + cfg.leaseTTL := min_le_right _ _
    _ < horizon + cfg.leaseTTL := Int.add_lt_add_right hearly _

/-- One action keeps the bounds of the server. -/
theorem Server.Bounded.exec (hs : s.Bounded cfg horizon) (hcfg : cfg.usePeers = true)
    (h : Paced cfg horizon past (.act a next) ω) : (exec a ω s).2.2.Bounded cfg horizon := by
  obtain ⟨c, hc, hsanctioned, -⟩ := h.mediated
  constructor
  · intro l hl
    by_cases ha : ∃ l', a = .install l'
    · obtain ⟨l', rfl⟩ := ha
      obtain rfl := Option.some.inj hl
      exact hc l' hsanctioned
    · rw [registry_exec ω s fun l' heq => ha ⟨l', heq⟩] at hl
      exact hs.lists l hl
  · intro k e he
    cases a with
    | storePut p =>
        rcases Store.get_put_eq_some.mp he with ⟨-, rfl⟩ | ⟨-, he⟩
        · obtain ⟨claims, req, pub, -, -, -, -, hgranted, -⟩ := hsanctioned
          exact h.lease_lt hcfg hgranted.lease_found
        · exact hs.leases k e he
    | storeRenew key lease =>
        simp only [Api.exec, Store.get_renew] at he
        split at he
        · obtain ⟨e', -, rfl⟩ := Option.map_eq_some_iff.mp he
          obtain ⟨claims, req, e, -, -, -, -, hlease⟩ := hsanctioned
          exact h.lease_lt hcfg hlease
        · exact hs.leases k e he
    | storeDelete key =>
        simp only [Api.exec, Store.get_delete] at he
        split at he
        · exact absurd he (by simp)
        · exact hs.leases k e he
    | _ =>
        rw [store_exec ω s id] at he
        exact hs.leases k e he

end Steps

section Runs

variable [GoText.CaseTables] {cfg : Config} {horizon : Time} {s : Server} {turns : List Turn}

end Runs

attribute [local instance] GoText.asciiTables

end Claimward.Api
